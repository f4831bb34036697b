import Rubato.Decimal.Written
import Rubato.Markup.Fault

namespace Rubato

/-! Why a text cannot be converted. Only the structure of a text is ever at fault:
whatever is wrong with the music in it is remarked on and passed over. -/

inductive DocumentFault
  | noRoot
  | timewise
  | unexpectedRoot (name : String)
  | noPart
  deriving DecidableEq, Repr

inductive OptionsFault
  | unreadable
  | invalidTempo (value : Float)

inductive Failure
  | markup (place : Nat) (fault : Markup.Fault)
  | document (fault : DocumentFault)
  | options (fault : OptionsFault)

def DocumentFault.message : DocumentFault → String
  | .noRoot => "document has no root element"
  | .timewise => "timewise scores are not supported"
  | .unexpectedRoot name => s!"expected <score-partwise>, found <{name}>"
  | .noPart => "score has no <part>"

def OptionsFault.message : OptionsFault → String
  | .unreadable => "unreadable options"
  | .invalidTempo value =>
    s!"tempo-override must be a positive number, got {Decimal.plain value}"

def Failure.message : Failure → String
  | .markup place fault => s!"Malformed XML at byte {place}: {fault.message}"
  | .document fault => s!"Invalid document: {fault.message}"
  | .options fault => s!"Invalid options: {fault.message}"

end Rubato
