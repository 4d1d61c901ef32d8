/-!
# Command-line options

After the command, options and at most one file name follow in any order; of options that set the same thing, the last
one counts. `Options.read` reads them from left to right.
-/

namespace GameScript.Command

/-- How diagnostics are written. -/
inductive Format
  | human
  | json
deriving DecidableEq, Repr

/-- What the arguments after the command ask for. -/
structure Options where
  file : Option String
  format : Format
  maxDepth : Nat
deriving DecidableEq, Repr

/-- What is wrong with the arguments after the command. -/
inductive OptionFault
  | formatMissing
  | unknownFormat (value : String)
  | depthMissing
  | badDepth (value : String)
  | unknownOption (flag : String)
  | unexpectedArgument (argument : String)
deriving DecidableEq, Repr

/-- The text of a fault. -/
def OptionFault.message : OptionFault → String
  | formatMissing => "--format expects 'human' or 'json'"
  | unknownFormat value => "unknown format '" ++ value ++ "', expected 'human' or 'json'"
  | depthMissing => "--max-depth expects a number"
  | badDepth value => "--max-depth expects a number, got '" ++ value ++ "'"
  | unknownOption flag => "unknown option '" ++ flag ++ "'"
  | unexpectedArgument argument => "unexpected argument '" ++ argument ++ "'"

/-- The least number that is too great for a count of 64 bits. -/
def countBound : Nat := 18446744073709551616

/-- The number that decimal digits make, if there is a digit and it fits in 64 bits. -/
def digitsToNat? (digits : List Char) : Option Nat :=
  let n := digits.foldl (fun n c => 10 * n + (c.toNat - '0'.toNat)) 0
  if digits.isEmpty || !digits.all Char.isDigit || decide (countBound ≤ n) then none else some n

/-- A count of 64 bits: decimal digits, after a plus sign or not. -/
def readCount? (text : String) : Option Nat :=
  match text.toList with
  | '+' :: digits => digitsToNat? digits
  | digits => digitsToNat? digits

/-- The format of a name. -/
def Format.ofName? : String → Option Format
  | "human" => some .human
  | "json" => some .json
  | _ => none

/-- Whether an argument is an option. -/
def isFlag (argument : String) : Bool := ['-', '-'].isPrefixOf argument.toList

namespace Options

/-- Reads arguments one after another into the options read before. -/
def readFrom (opts : Options) : List String → Except OptionFault Options
  | [] => .ok opts
  | "--json" :: rest => readFrom { opts with format := .json } rest
  | "--format" :: [] => .error .formatMissing
  | "--format" :: value :: rest =>
    match Format.ofName? value with
    | some format => readFrom { opts with format := format } rest
    | none => .error (.unknownFormat value)
  | "--max-depth" :: [] => .error .depthMissing
  | "--max-depth" :: value :: rest =>
    match readCount? value with
    | some n => readFrom { opts with maxDepth := n } rest
    | none => .error (.badDepth value)
  | argument :: rest =>
    if isFlag argument then .error (.unknownOption argument)
    else if opts.file.isSome then .error (.unexpectedArgument argument)
    else readFrom { opts with file := some argument } rest

/-- Reads the arguments after the command; `maxDepth` is the limit where none is given. -/
def read (maxDepth : Nat) (arguments : List String) : Except OptionFault Options :=
  readFrom ⟨none, .human, maxDepth⟩ arguments

end Options

end GameScript.Command
