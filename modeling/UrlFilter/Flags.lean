/-
Flags of a rule.

A rule carries twenty-seven flags: twenty-five that an option of the rule text
can set, one for a domain constraint and one for an exception.  A set of flags
is a bit vector, and membership is a bit test.
-/

namespace UrlFilter

/-- What an option can ask about a request. -/
inductive Trait
  | script
  | image
  | stylesheet
  | object
  | xmlhttprequest
  | objectSubrequest
  | subdocument
  | document
  | elemhide
  | other
  | thirdParty
  | collapse
  deriving DecidableEq, Repr

namespace Trait

/-- All traits, in the order of their bits. -/
def all : List Trait :=
  [script, image, stylesheet, object, xmlhttprequest, objectSubrequest,
   subdocument, document, elemhide, other, thirdParty, collapse]

/-- The place of a trait in `all`. -/
def index : Trait → Fin 12
  | script => 0
  | image => 1
  | stylesheet => 2
  | object => 3
  | xmlhttprequest => 4
  | objectSubrequest => 5
  | subdocument => 6
  | document => 7
  | elemhide => 8
  | other => 9
  | thirdParty => 10
  | collapse => 11

/-- The word for a trait in the options of a rule. -/
def name : Trait → String
  | script => "script"
  | image => "image"
  | stylesheet => "stylesheet"
  | object => "object"
  | xmlhttprequest => "xmlhttprequest"
  | objectSubrequest => "object-subrequest"
  | subdocument => "subdocument"
  | document => "document"
  | elemhide => "elemhide"
  | other => "other"
  | thirdParty => "third-party"
  | collapse => "collapse"

theorem index_inj {left right : Trait} : left.index = right.index ↔ left = right := by
  constructor
  · intro h
    cases left <;> cases right <;> first | rfl | exact absurd h (by decide)
  · rintro rfl
    rfl

end Trait

/-- A flag of a rule. -/
inductive Flag
  /-- The case of letters counts. -/
  | matchCase
  /-- The rule asks for a trait. -/
  | asserted (trait : Trait)
  /-- The rule asks for the absence of a trait. -/
  | negated (trait : Trait)
  /-- The rule has a domain constraint. -/
  | domain
  /-- The rule is an exception. -/
  | allow
  deriving DecidableEq, Repr

namespace Flag

/-- The bit of a flag.  A trait takes two neighbouring bits, the upper one for
its absence. -/
def bit : Flag → Fin 27
  | matchCase => ⟨0, by omega⟩
  | asserted trait => ⟨1 + 2 * trait.index.val, by omega⟩
  | negated trait => ⟨2 + 2 * trait.index.val, by omega⟩
  | domain => ⟨25, by omega⟩
  | allow => ⟨26, by omega⟩

/-- The option that sets a flag, which is its trait with a tilde in front for
the absence.  No option sets the domain and the exception flag. -/
def optionName? : Flag → Option String
  | matchCase => some "match-case"
  | asserted trait => some trait.name
  | negated trait => some ("~" ++ trait.name)
  | domain => none
  | allow => none

/-- The flags that an option can set. -/
def optional : List Flag :=
  matchCase :: Trait.all.flatMap fun trait => [asserted trait, negated trait]

/-- The flag that the option of a name sets. -/
def ofOptionName? (name : List Char) : Option Flag :=
  optional.find? fun flag => flag.optionName?.any fun option => option.toList == name

/-- Different flags have different bits. -/
theorem bit_inj {left right : Flag} : left.bit = right.bit ↔ left = right := by
  constructor
  · intro h
    have hval := congrArg Fin.val h
    cases left with
    | matchCase => cases right <;> simp [bit] at hval ⊢ <;> omega
    | asserted l =>
        have hl := l.index.isLt
        cases right with
        | asserted r =>
            have : l.index = r.index := by
              simp only [bit] at hval
              omega
            rw [Trait.index_inj.1 this]
        | _ => simp [bit] at hval <;> omega
    | negated l =>
        have hl := l.index.isLt
        cases right with
        | negated r =>
            have : l.index = r.index := by
              simp only [bit] at hval
              omega
            rw [Trait.index_inj.1 this]
        | _ => simp [bit] at hval <;> omega
    | domain => cases right <;> simp [bit] at hval ⊢ <;> omega
    | allow => cases right <;> simp [bit] at hval ⊢ <;> omega
  · rintro rfl
    rfl

end Flag

/-- A set of flags. -/
structure Flags where
  bits : BitVec 27
  deriving DecidableEq, Repr

namespace Flags

/-- No flag. -/
def empty : Flags := ⟨0⟩

/-- Is a flag in the set? -/
def contains (flags : Flags) (flag : Flag) : Bool :=
  flags.bits.getLsbD flag.bit

/-- The set with a flag added. -/
def insert (flags : Flags) (flag : Flag) : Flags :=
  ⟨flags.bits ||| BitVec.twoPow 27 flag.bit⟩

/-- The set without a flag. -/
def erase (flags : Flags) (flag : Flag) : Flags :=
  ⟨flags.bits &&& ~~~(BitVec.twoPow 27 flag.bit)⟩

/-- The set with a flag in it exactly if a condition holds. -/
def assign (flags : Flags) (flag : Flag) (condition : Bool) : Flags :=
  if condition then flags.insert flag else flags.erase flag

/-- The set of the flags in a list. -/
def ofList (flags : List Flag) : Flags :=
  flags.foldl insert empty

/-- The number whose binary digits are the bits of the set. -/
def toNat (flags : Flags) : Nat := flags.bits.toNat

/-- The set with a number, if no bit of the number is beyond the last flag. -/
def ofNat? (number : Nat) : Option Flags :=
  let flags : Flags := ⟨BitVec.ofNat 27 number⟩
  if flags.toNat = number then some flags else none

@[ext]
theorem ext {left right : Flags} (h : left.bits = right.bits) : left = right := by
  cases left
  cases right
  exact congrArg Flags.mk h

@[simp]
theorem contains_empty (flag : Flag) : empty.contains flag = false := by
  simp [contains, empty]

@[simp]
theorem contains_insert (flags : Flags) (added flag : Flag) :
    (flags.insert added).contains flag = (flags.contains flag || flag = added) := by
  simp [contains, insert, ← Fin.ext_iff, Flag.bit_inj]

@[simp]
theorem contains_erase (flags : Flags) (removed flag : Flag) :
    (flags.erase removed).contains flag = (flags.contains flag && flag ≠ removed) := by
  simp [contains, erase, ← Fin.ext_iff, Flag.bit_inj]

@[simp]
theorem contains_assign (flags : Flags) (assigned flag : Flag) (condition : Bool) :
    (flags.assign assigned condition).contains flag =
      if flag = assigned then condition else flags.contains flag := by
  by_cases h : flag = assigned <;> cases condition <;> simp [assign, h]

end Flags

end UrlFilter
