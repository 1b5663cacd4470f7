/-
Programs.

A program is a list of instructions with a header.  A program that starts with
the head anchor runs the instructions after it from the start of the URI only;
any other program runs from every byte of the URI until one run succeeds.
-/
import UrlFilter.Flags
import UrlFilter.Machine

namespace UrlFilter

/-- The greatest number of instructions in a program. -/
def instructionLimit : Nat := 4096

/-- What a program says about itself: the number of its instructions and the
flags of its rule. -/
structure ProgramHeader where
  count : Nat
  flags : Flags
  deriving DecidableEq, Repr

/-- Instructions with their header. -/
structure Program where
  header : ProgramHeader
  instructions : List Instruction
  deriving DecidableEq, Repr

namespace Program

/-- The program of some instructions, with a header that counts them. -/
def ofInstructions (instructions : List Instruction) (flags : Flags) : Program :=
  ⟨⟨instructions.length, flags⟩, instructions⟩

/-- Does the program start with the head anchor? -/
def isAnchored (program : Program) : Bool :=
  program.instructions.head? = some Instruction.head

/-- The instructions that are run: all of them but a head anchor in front. -/
def body (program : Program) : List Instruction :=
  if program.isAnchored then program.instructions.tail else program.instructions

theorem length_body_le (program : Program) :
    program.body.length ≤ program.instructions.length := by
  rw [body]
  split
  · rw [List.length_tail]
    exact Nat.sub_le _ _
  · exact Nat.le_refl _

/-- Does the program accept the bytes of a URI?  No program accepts an empty
URI, since no run starts at its end. -/
def accepts (program : Program) (bytes : ByteArray) : Bool :=
  let starts := if program.isAnchored then min 1 bytes.size else bytes.size
  (List.range starts).any (run bytes program.body)

theorem accepts_iff {program : Program} {bytes : ByteArray} :
    program.accepts bytes = true ↔
      ∃ start < bytes.size, (program.isAnchored = true → start = 0) ∧
        run bytes program.body start = true := by
  cases h : program.isAnchored with
  | false => simp [accepts, h]
  | true =>
      simp only [accepts, h, if_true, List.any_eq_true, List.mem_range]
      constructor
      · rintro ⟨start, hstart, hrun⟩
        exact ⟨start, by omega, fun _ => by omega, hrun⟩
      · rintro ⟨start, hstart, hzero, hrun⟩
        exact ⟨start, by have := hzero trivial; omega, hrun⟩

end Program

end UrlFilter
