namespace Rubato.Markup

/-! Places in a markup text are counted in bytes of its UTF-8 form. White space
in markup is the space, the tab and the two line ends. -/

def isSpace (c : Char) : Bool :=
  c == ' ' || c == '\t' || c == '\r' || c == '\n'

def bytes : List Char → Nat
  | [] => 0
  | c :: rest => c.utf8Size + bytes rest

@[simp] theorem bytes_nil : bytes [] = 0 := rfl

@[simp] theorem bytes_cons (c : Char) (rest : List Char) :
    bytes (c :: rest) = c.utf8Size + bytes rest := rfl

@[simp] theorem bytes_append (first second : List Char) :
    bytes (first ++ second) = bytes first + bytes second := by
  induction first with
  | nil => simp
  | cons c rest ih => simp [ih, Nat.add_assoc]

theorem length_le_bytes (text : List Char) : text.length ≤ bytes text := by
  induction text with
  | nil => exact Nat.le_refl 0
  | cons c rest ih =>
      have hpos := c.utf8Size_pos
      simp only [List.length_cons, bytes_cons]
      omega

/-- The symbol whose code point is the first byte of a character. -/
def leadingByte (c : Char) : Char :=
  let code := c.toNat
  Char.ofNat <|
    if code < 0x80 then code
    else if code < 0x800 then 0xC0 + code / 0x40
    else if code < 0x10000 then 0xE0 + code / 0x1000
    else 0xF0 + code / 0x40000

def trimSpaceEnd (text : List Char) : List Char :=
  (text.reverse.dropWhile isSpace).reverse

/-- A text cut at the first character that satisfies a test. -/
def cut (stop : Char → Bool) (text : List Char) : List Char × List Char :=
  (text.takeWhile fun c => !stop c, text.dropWhile fun c => !stop c)

@[simp] theorem cut_append (stop : Char → Bool) (text : List Char) :
    (cut stop text).1 ++ (cut stop text).2 = text :=
  List.takeWhile_append_dropWhile

theorem length_cut_le (stop : Char → Bool) (text : List Char) :
    (cut stop text).2.length ≤ text.length :=
  (List.dropWhile_suffix _).length_le

def startsAnyCase (mark text : List Char) : Bool :=
  (text.take mark.length).map Char.toLower == mark.map Char.toLower

end Rubato.Markup
