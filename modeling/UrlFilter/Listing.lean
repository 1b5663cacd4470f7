/-
Listings of rules.

A listing shows every rule with its instructions, one to a line, and ends with
the counts of all rules together.
-/
import UrlFilter.Rule
import UrlFilter.Text.ByteEscape

namespace UrlFilter

/-- The name of an operand: a word for a mark, and for any other operand the
name of the byte in its lowest eight bits. -/
def Operand.name (operand : Int) : String :=
  if operand = Operand.head then "head"
  else if operand = Operand.tail then "tail"
  else if operand = Operand.separator then "separator"
  else String.ofList (escapeByte (UInt8.ofNat (operand % 256).toNat))

/-- The text of an instruction, with its operand if the opcode takes one. -/
def Instruction.text (instruction : Instruction) : String :=
  match instruction.opcode with
  | .char | .skipTo =>
      instruction.opcode.mnemonic ++ " " ++ Operand.name instruction.operand
  | .skipScheme | .accept => instruction.opcode.mnemonic

/-- The counts of some rules. -/
structure ProgramStats where
  rules : Nat
  instructions : Nat
  char : Nat
  skipTo : Nat
  skipScheme : Nat
  accept : Nat
  deriving DecidableEq, Repr

namespace ProgramStats

/-- The counts of no rule. -/
def zero : ProgramStats := ⟨0, 0, 0, 0, 0, 0⟩

/-- The counts of two collections together. -/
def add (left right : ProgramStats) : ProgramStats where
  rules := left.rules + right.rules
  instructions := left.instructions + right.instructions
  char := left.char + right.char
  skipTo := left.skipTo + right.skipTo
  skipScheme := left.skipScheme + right.skipScheme
  accept := left.accept + right.accept

/-- The counts of one rule.  The number of its instructions is the one in the
header of its program. -/
def ofRule (rule : Rule) : ProgramStats :=
  let opcodes := rule.program.instructions.map Instruction.opcode
  { rules := 1
    instructions := rule.program.header.count
    char := opcodes.count .char
    skipTo := opcodes.count .skipTo
    skipScheme := opcodes.count .skipScheme
    accept := opcodes.count .accept }

/-- The counts of a list of rules. -/
def ofRules (rules : List Rule) : ProgramStats :=
  rules.foldl (fun stats rule => stats.add (ofRule rule)) zero

/-- The lines that show the counts. -/
def text (stats : ProgramStats) : String :=
  String.join
    ["#rule = ", toString stats.rules, "\n",
     "#instruction = ", toString stats.instructions, "\n",
     "#char = ", toString stats.char, "\n",
     "#skip_to = ", toString stats.skipTo, "\n",
     "#skip_scheme = ", toString stats.skipScheme, "\n",
     "#match = ", toString stats.accept, "\n"]

end ProgramStats

/-- The text of a rule: its own text between double quotes, just as it is, its
instructions, and an empty line. -/
def Rule.listing (rule : Rule) : String :=
  "\"" ++ rule.text ++ "\"\n" ++
    String.join (rule.program.instructions.map fun instruction => instruction.text ++ "\n") ++
    "\n"

/-- A listing that is being written: its text so far, and the counts of the rules in it. -/
structure ListingDraft where
  text : String
  stats : ProgramStats
  deriving DecidableEq, Repr

/-- Write a rule behind the others, and count it. -/
def ListingDraft.write (draft : ListingDraft) (rule : Rule) : ListingDraft where
  text := draft.text ++ rule.listing
  stats := draft.stats.add (ProgramStats.ofRule rule)

/-- Write rules one after the other, and behind them the counts that have come together. -/
def writeListing (rules : List Rule) : ListingDraft :=
  let draft := rules.foldl ListingDraft.write ⟨"", ProgramStats.zero⟩
  { draft with text := draft.text ++ draft.stats.text }

/-- The text of a list of rules, with their counts at the end. -/
def listing (rules : List Rule) : String :=
  (writeListing rules).text

theorem foldl_write (rules : List Rule) (draft : ListingDraft) :
    rules.foldl ListingDraft.write draft =
      ⟨draft.text ++ String.join (rules.map Rule.listing),
        rules.foldl (fun stats rule => stats.add (ProgramStats.ofRule rule)) draft.stats⟩ := by
  induction rules generalizing draft with
  | nil => simp
  | cons rule rules ih =>
      rw [List.foldl_cons, ih, List.foldl_cons, List.map_cons, String.join_cons,
        ← String.append_assoc]
      rfl

/-- Writing counts the rules as counting alone does. -/
theorem stats_writeListing (rules : List Rule) :
    (writeListing rules).stats = ProgramStats.ofRules rules := by
  rw [writeListing, foldl_write]
  rfl

theorem listing_eq (rules : List Rule) :
    listing rules = String.join (rules.map Rule.listing) ++ (ProgramStats.ofRules rules).text := by
  rw [listing, writeListing, foldl_write, String.empty_append]
  rfl

end UrlFilter
