import Rubato.Decimal.Written
import Rubato.Text.Quoted

namespace Rubato

/-! What the library has to say about a score beside its result: warnings about
notation it could not use and details of what it did. A remark names its cause;
the wording is in one place. -/

inductive Level
  | warning
  | detail
  deriving DecidableEq

inductive Remark (α : Type)
  | unreadableNumber (field : String) (text : String)
  | nonPositiveDivisions (text : String)
  | incompleteTime
  | pitchWithoutStep
  | unknownAccidental (text : String)
  | unsupportedOrnament (name : String)
  | invalidTempo (text : String)
  | measureRead (number : String) (elements : Nat)
  | rampLeftOpen (position startTempo endTempo : α)
  | tieDropped (name : String) (voice staff : Nat)
  | tieRestarted (name : String)
  | measureWalked (number : String) (start span : α) (segments : Nat)
  | tiesLeftOpen (part : String) (count : Nat)
  deriving DecidableEq

namespace Remark

variable {α : Type}

def level : Remark α → Level
  | .measureRead .. => .detail
  | .measureWalked .. => .detail
  | .tiesLeftOpen .. => .detail
  | _ => .warning

open Text (quoted) in
open Decimal (plain fixed) in
def text : Remark Float → String
  | .unreadableNumber field text => s!"ignoring unparseable <{field}> value {quoted text}"
  | .nonPositiveDivisions text => s!"ignoring non-positive <divisions> {quoted text}"
  | .incompleteTime => "ignoring incomplete <time> signature"
  | .pitchWithoutStep => "skipping pitch without a valid <step>"
  | .unknownAccidental text => s!"ignoring accidental-mark {quoted text}"
  | .unsupportedOrnament name => s!"ignoring unsupported ornament <{name}>"
  | .invalidTempo text => s!"ignoring invalid sound tempo {quoted text}"
  | .measureRead number elements => s!"measure {quoted number}: {elements} elements"
  | .rampLeftOpen position startTempo endTempo =>
    s!"closing unterminated tempo ramp at position {plain position} " ++
      s!"({plain startTempo} -> {plain endTempo} BPM)"
  | .tieDropped name voice staff =>
    s!"dropping tied {name} with no open tie (voice {voice}, staff {staff})"
  | .tieRestarted name => s!"tied {name} continues no open tie; starting a new chain"
  | .measureWalked number start span segments =>
    s!"measure {quoted number}: starts at {fixed 3 start}s, {plain span} divisions, " ++
      s!"{segments} tempo segment(s)"
  | .tiesLeftOpen part count => s!"part {quoted part}: {count} tie(s) still open at the end"

end Remark

/-! A result together with the remarks made on the way to it, in the order they
were made. Remarks never influence the result. -/

structure Noted (α : Type) (β : Type) where
  value : β
  remarks : List (Remark α)

namespace Noted

variable {α β γ : Type}

instance : Monad (Noted α) where
  pure value := ⟨value, []⟩
  bind first next := ⟨(next first.value).value, first.remarks ++ (next first.value).remarks⟩

def remark (r : Remark α) : Noted α Unit := ⟨(), [r]⟩

@[simp] theorem value_pure (b : β) : (pure b : Noted α β).value = b := rfl

@[simp] theorem remarks_pure (b : β) : (pure b : Noted α β).remarks = [] := rfl

@[simp] theorem value_bind (first : Noted α β) (next : β → Noted α γ) :
    (first >>= next).value = (next first.value).value := rfl

@[simp] theorem remarks_bind (first : Noted α β) (next : β → Noted α γ) :
    (first >>= next).remarks = first.remarks ++ (next first.value).remarks := rfl

@[simp] theorem value_map (f : β → γ) (first : Noted α β) :
    (f <$> first).value = f first.value := rfl

@[simp] theorem remarks_remark (r : Remark α) : (remark r).remarks = [r] := rfl

instance : LawfulMonad (Noted α) :=
  .mk' (Noted α)
    (fun x => by cases x; simp [Functor.map])
    (fun b next => rfl)
    (fun x f g => by cases x; simp [bind, List.append_assoc])

def mapList (f : β → Noted α γ) : List β → Noted α (List γ)
  | [] => pure []
  | b :: rest => do
    let c ← f b
    let others ← mapList f rest
    pure (c :: others)

def foldList (step : γ → β → Noted α γ) (start : γ) : List β → Noted α γ
  | [] => pure start
  | b :: rest => do
    let next ← step start b
    foldList step next rest

@[simp] theorem value_mapList (f : β → Noted α γ) (list : List β) :
    (mapList f list).value = list.map fun b => (f b).value := by
  induction list with
  | nil => rfl
  | cons b rest ih => simp [mapList, ih]

@[simp] theorem value_foldList (step : γ → β → Noted α γ) (start : γ) (list : List β) :
    (foldList step start list).value = list.foldl (fun c b => (step c b).value) start := by
  induction list generalizing start with
  | nil => rfl
  | cons b rest ih => simp [foldList, ih]

end Noted

end Rubato
