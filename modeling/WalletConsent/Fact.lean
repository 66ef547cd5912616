import WalletConsent.Fault

/-!
The texts that a screen holds. Limits count the bytes of the text, and so does the number of lines
that a fact is estimated to take.
-/

set_option autoImplicit false

namespace WalletConsent

def Text.maxSize : Nat := 50

/-- A title, a question or a warning. -/
structure Text where
  value : String
  size_le : value.utf8ByteSize ≤ Text.maxSize
  deriving DecidableEq

def Text.of (value : String) : Except Fault Text :=
  if h : value.utf8ByteSize ≤ Text.maxSize then .ok ⟨value, h⟩ else .error .invalidLength

def Fact.maxLabelSize : Nat := 30

def Fact.maxValueSize : Nat := 128

/-- A labelled value. -/
structure Fact where
  label : String
  value : String
  label_le : label.utf8ByteSize ≤ Fact.maxLabelSize
  value_le : value.utf8ByteSize ≤ Fact.maxValueSize
  deriving DecidableEq

namespace Fact

def of (label value : String) : Except Fault Fact :=
  if h : label.utf8ByteSize ≤ maxLabelSize ∧ value.utf8ByteSize ≤ maxValueSize then
    .ok ⟨label, value, h.1, h.2⟩
  else .error .invalidLength

def charsPerLine : Nat := 18

/-- Lines for the label and the space around a fact. -/
def overheadLines : Nat := 2

def lines (f : Fact) : Nat := f.value.utf8ByteSize / charsPerLine + overheadLines

end Fact

abbrev Page := List Fact

namespace Page

def lines : Page → Nat
  | [] => 0
  | f :: p => f.lines + lines p

def maxLines : Nat := 10

def maxFacts : Nat := 5

end Page

end WalletConsent
