import NameMigration.Text.Basic

/-!
Switches on a command line. A switch is named in full behind two dashes, or by a letter behind one.
Its value stands behind an equals sign, directly behind the letter, or in the next argument.
-/

namespace NameMigration

inductive SwitchKind where
  | flag
  | text
  | path
  | help
  | version
  deriving DecidableEq, Repr

structure Switch where
  name : Text
  letter? : Option Char
  kind : SwitchKind
  deriving DecidableEq, Repr

inductive Refusal where
  | misused
  | helpWanted
  | versionWanted
  deriving DecidableEq, Repr

structure Given where
  name : Text
  value : Text
  deriving DecidableEq, Repr

inductive Argument where
  | known (switch : Switch) (attached? : Option Text)
  | unknown
  /-- A word that is no switch, or the two dashes behind which there are no switches. -/
  | word
  deriving DecidableEq, Repr

namespace Argument

def splitAtEquals (text : Text) : Text × Option Text :=
  let name := text.takeWhile (· ≠ '=')
  (name, (text.drop name.length).tail?)

def behindLetter : Text → Option Text
  | [] => none
  | '=' :: value => some value
  | value => some value

def ofText (switches : List Switch) (text : Text) : Argument :=
  match text with
  | ['-', '-'] => .word
  | '-' :: '-' :: named =>
      let (name, attached?) := splitAtEquals named
      match switches.find? (·.name = name) with
      | some switch => .known switch attached?
      | none => .unknown
  | '-' :: letter :: behind =>
      match switches.find? (·.letter? = some letter) with
      | some switch =>
          let takesValue := switch.kind = .text ∨ switch.kind = .path
          .known switch (if takesValue then behindLetter behind else none)
      | none => .unknown
  | _ => .word

end Argument

namespace Given

def value? (given : List Given) (name : String) : Option Text :=
  (given.find? (·.name = name.toList)).map (·.value)

def has (given : List Given) (name : String) : Bool :=
  (value? given name).isSome

def add (given : List Given) (switch : Switch) (value : Text) : Except Refusal (List Given) :=
  if given.any (·.name = switch.name) then .error .misused
  else if switch.kind = .path ∧ value = [] then .error .misused
  else .ok (⟨switch.name, value⟩ :: given)

/-- An argument that can be no value, because it looks like a switch. -/
def isDashed (argument : Text) : Bool :=
  argument.head? = some '-' && argument != ['-']

def scan (switches : List Switch) (given : List Given) :
    List Text → Except Refusal (List Given × List Text)
  | [] => .ok (given, [])
  | argument :: rest =>
      match Argument.ofText switches argument with
      | .word => .ok (given, argument :: rest)
      | .unknown => .error .misused
      | .known switch attached? =>
          match switch.kind, attached? with
          | .help, none => .error .helpWanted
          | .version, none => .error .versionWanted
          | .flag, none => do scan switches (← add given switch []) rest
          | .text, some value | .path, some value => do
              scan switches (← add given switch value) rest
          | .text, none | .path, none =>
              match rest with
              | [] => .error .misused
              | value :: others =>
                  if isDashed value then .error .misused
                  else do scan switches (← add given switch value) others
          | _, some _ => .error .misused

end Given

end NameMigration
