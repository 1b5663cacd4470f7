/-
Invocations of the program.

The arguments of the program name a command and settle its settings.  A setting
is given by an option, which takes a value or none, or by a plain argument.  The
arguments are refused if a command does not know a setting, if one is given
twice that may be given only once, or if one is missing that a command needs.
-/
import UrlFilter.Command.Basic

namespace UrlFilter

/-- What an argument can settle. -/
inductive SettingKind
  /-- A list to load. -/
  | list
  /-- The file that URIs stand in. -/
  | uriFile
  /-- How often a batch is measured. -/
  | iterations
  | enforceExclusions
  | skipInvalid
  | json
  | verbose
  /-- A URI, as a plain argument. -/
  | uri
  deriving DecidableEq, Repr

namespace SettingKind

/-- The kinds that an option settles. -/
def optional : List SettingKind :=
  [list, uriFile, iterations, enforceExclusions, skipInvalid, json, verbose]

/-- The name of the option, which stands behind two hyphens. -/
def longName : SettingKind → String
  | list => "rules"
  | uriFile => "uris"
  | iterations => "iterations"
  | enforceExclusions => "enforce-exclusions"
  | skipInvalid => "skip-invalid"
  | json => "json"
  | verbose => "verbose"
  | uri => ""

/-- The letter of the option, which stands behind one hyphen. -/
def letter? : SettingKind → Option Char
  | list => some 'r'
  | verbose => some 'v'
  | _ => none

/-- Does the option take a value? -/
def takesValue (kind : SettingKind) : Bool :=
  kind = list || kind = uriFile || kind = iterations

/-- May the setting be given more than once? -/
def isRepeatable (kind : SettingKind) : Bool :=
  kind = list || kind = uri

end SettingKind

/-- A setting with its value, which is empty for an option that takes none. -/
structure Setting where
  kind : SettingKind
  value : String
  deriving DecidableEq, Repr

/-- What one argument gives: some settings, and possibly an option that waits
for its value. -/
structure Given where
  settings : List Setting
  waiting : Option SettingKind
  deriving DecidableEq, Repr

namespace Given

/-- A complete setting. -/
def setting (kind : SettingKind) (value : String) : Given := ⟨[⟨kind, value⟩], none⟩

/-- An option by its name, with the value behind an equals sign if there is
one. -/
def ofLong? (name : List Char) (value? : Option (List Char)) : Option Given :=
  match SettingKind.optional.find? fun kind => kind.longName.toList == name with
  | none => none
  | some kind =>
      match kind.takesValue, value? with
      | true, some value => some (setting kind (String.ofList value))
      | true, none => some ⟨[], some kind⟩
      | false, none => some (setting kind "")
      | false, some _ => none

/-- Options by their letters.  What follows the letter of an option that takes a
value is the value. -/
def ofLetters? : List Char → Option Given
  | [] => some ⟨[], none⟩
  | letter :: rest =>
      match SettingKind.optional.find? fun kind => kind.letter? == some letter with
      | none => none
      | some kind =>
          if kind.takesValue then
            match rest with
            | [] => some ⟨[], some kind⟩
            | '=' :: value => some (setting kind (String.ofList value))
            | value => some (setting kind (String.ofList value))
          else
            (ofLetters? rest).map fun given =>
              { given with settings := ⟨kind, ""⟩ :: given.settings }

/-- What an argument gives that does not wait behind an option. -/
def ofArgument? (argument : String) : Option Given :=
  match argument.toList with
  | '-' :: '-' :: text =>
      ofLong? (text.takeWhile (· != '='))
        (match text.dropWhile (· != '=') with
        | [] => none
        | _ :: value => some value)
  | '-' :: letter :: letters => ofLetters? (letter :: letters)
  | _ => some (setting .uri argument)

end Given

/-- Does an argument look like an option, so that it is no value of one? -/
def looksLikeOption (argument : String) : Bool :=
  argument.toList.head? = some '-' && argument != "-"

/-- The settings that arguments give.  Everything behind two lone hyphens is a
plain argument. -/
def settings? : List String → Option (List Setting)
  | [] => some []
  | argument :: rest =>
      if argument = "--" then some (rest.map (Setting.mk .uri))
      else
        match Given.ofArgument? argument with
        | none => none
        | some ⟨given, none⟩ => (settings? rest).map (given ++ ·)
        | some ⟨given, some kind⟩ =>
            match rest with
            | [] => none
            | value :: rest =>
                if looksLikeOption value then none
                else (settings? rest).map (given ++ ⟨kind, value⟩ :: ·)

/-- The number that decimal digits stand for, if it fits a machine word.  A plus
sign may stand in front. -/
def decimal? (text : List Char) : Option Nat :=
  let digits := if text.head? = some '+' then text.drop 1 else text
  let value := digits.foldl (fun value digit => 10 * value + (digit.toNat - '0'.toNat)) 0
  if !digits.isEmpty && digits.all Char.isDigit && value < UInt64.size then some value else none

/-- The values of a setting, in order. -/
def valuesOf (kind : SettingKind) (settings : List Setting) : List String :=
  (settings.filter fun setting => setting.kind = kind).map Setting.value

/-- Is a setting given? -/
def isGiven (kind : SettingKind) (settings : List Setting) : Bool :=
  settings.any fun setting => setting.kind = kind

/-- May these settings stand together in a command that knows some kinds?  Every
command needs a list. -/
def areAllowed (kinds : List SettingKind) (settings : List Setting) : Bool :=
  isGiven .list settings &&
    settings.all fun setting =>
      kinds.contains setting.kind &&
        (setting.kind.isRepeatable || (valuesOf setting.kind settings).length = 1)

/-- The command of a name under some settings. -/
def Command.ofSettings? (name : String) (settings : List Setting) : Option Command :=
  let lists := valuesOf .list settings
  match name with
  | "match" =>
      if areAllowed [.list, .uriFile, .enforceExclusions, .skipInvalid, .json, .verbose, .uri]
          settings then
        some <| .matchUris
          { lists
            mode := if isGiven .enforceExclusions settings then .enforced else .inert
            policy := if isGiven .skipInvalid settings then .skip else .abort
            json := isGiven .json settings
            uriFile := (valuesOf .uriFile settings).head?
            uris := valuesOf .uri settings }
      else none
  | "check" => if areAllowed [.list, .verbose] settings then some (.check lists) else none
  | "dump" =>
      if areAllowed [.list, .json, .verbose] settings then
        some (.dump lists (isGiven .json settings))
      else none
  | "bench" =>
      if areAllowed [.list, .uriFile, .iterations, .verbose] settings then
        match valuesOf .uriFile settings, valuesOf .iterations settings with
        | [], _ => none
        | uriFile :: _, [] => some (.bench lists uriFile 100)
        | uriFile :: _, text :: _ =>
            (decimal? text.toList).map fun iterations => .bench lists uriFile iterations
      else none
  | _ => none

/-- A command, and whether to tell about it in detail. -/
structure Invocation where
  command : Command
  verbose : Bool
  deriving DecidableEq, Repr

namespace Invocation

/-- The least level of the events that are told. -/
def threshold (invocation : Invocation) : Level :=
  if invocation.verbose then .debug else .warn

/-- The invocation whose first argument is the name of the command. -/
def ofCommandArgs? : List String → Option Invocation
  | [] => none
  | name :: rest =>
      match settings? rest with
      | none => none
      | some settings =>
          (Command.ofSettings? name settings).map fun command =>
            ⟨command, isGiven .verbose settings⟩

/-- The invocation of some arguments, if they are not refused.  The option to
tell more may also stand before the name of the command. -/
def ofArgs? : List String → Option Invocation
  | [] => none
  | first :: rest =>
      if first = "--verbose" ∨ first = "-v" then
        (ofCommandArgs? rest).map fun invocation => { invocation with verbose := true }
      else ofCommandArgs? (first :: rest)

end Invocation

end UrlFilter
