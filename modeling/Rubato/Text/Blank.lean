namespace Rubato.Text

/-! Blank characters are those with the Unicode property White_Space. Fields of a
score are trimmed of them on both ends before they are read. -/

def isBlank (c : Char) : Bool :=
  (0x9 ≤ c.toNat && c.toNat ≤ 0xD) || c.toNat == 0x20 || c.toNat == 0x85 ||
    c.toNat == 0xA0 || c.toNat == 0x1680 ||
    (0x2000 ≤ c.toNat && c.toNat ≤ 0x200A) || c.toNat == 0x2028 ||
    c.toNat == 0x2029 || c.toNat == 0x202F || c.toNat == 0x205F ||
    c.toNat == 0x3000

def trimStart (text : List Char) : List Char :=
  text.dropWhile isBlank

def trimEnd (text : List Char) : List Char :=
  (text.reverse.dropWhile isBlank).reverse

def trim (text : List Char) : List Char :=
  trimEnd (trimStart text)

@[simp] theorem trim_nil : trim [] = [] := rfl

theorem trimStart_final (text : List Char) : trimStart text <:+ text :=
  List.dropWhile_suffix isBlank

theorem trimEnd_initial (text : List Char) : trimEnd text <+: text := by
  have h := List.dropWhile_suffix isBlank (l := text.reverse)
  simpa [trimEnd] using List.reverse_prefix.mpr h

theorem trim_within (text : List Char) : trim text <:+: text :=
  (trimEnd_initial (trimStart text)).isInfix.trans (trimStart_final text).isInfix

def trimmed (text : String) : String :=
  String.ofList (trim text.toList)

end Rubato.Text
