import Mathlib.Data.List.Infix
import Mathlib.Data.Nat.Notation

/-!
# Stopping a dial

`stop_qmi` goes through the instances of the service, which procd names `instance1`, `instance2` and
so on, with two lookups for each: the command under that name, and the pid under the number alone.
An instance is chosen if the text that `jq` prints for its command has the name of the network
anywhere in it, or that of the interface.
-/

namespace BananaWrt

namespace Dial

/-- An instance as `ubus call service list` has it. -/
structure Instance where
  command : List (List Char)
  pid : ℕ
  deriving DecidableEq, Repr

def digits (n : ℕ) : List Char := Nat.toDigits 10 n

/-- The instances with their names. -/
def response (instances : List Instance) : List (List Char × Instance) :=
  instances.zipIdx.map fun x => ("instance".toList ++ digits (x.2 + 1), x.1)

/-- A name that may stand in a filter after a dot. -/
def isField : List Char → Bool
  | [] => false
  | c :: cs => (c.isAlpha || c == '_') && cs.all fun c => c.isAlphanum || c == '_'

/-- `\u` and four digits. -/
def unicodeEscape (c : Char) : List Char :=
  let hex := Nat.toDigits 16 c.toNat
  ['\\', 'u'] ++ List.replicate (4 - hex.length) '0' ++ hex

def escapeChar (c : Char) : List Char :=
  if c = '"' ∨ c = '\\' then ['\\', c]
  else if c = '\n' then ['\\', 'n']
  else if c = '\t' then ['\\', 't']
  else if c = '\r' then ['\\', 'r']
  else if c = '\x08' then ['\\', 'b']
  else if c = '\x0c' then ['\\', 'f']
  else if c.toNat < 0x20 ∨ c.toNat = 0x7f then unicodeEscape c
  else [c]

def quoted (word : List Char) : List Char := '"' :: word.flatMap escapeChar ++ ['"']

/-- A list of texts, one on a line. -/
def printTexts (words : List (List Char)) : List Char :=
  if words = [] then "[]".toList
  else "[\n  ".toList ++ ",\n  ".toList.intercalate (words.map quoted) ++ "\n]".toList

inductive Field where
  | command
  | pid

/-- `jq -r ".modem.instances.$name.$field"`; nothing is printed for a filter that is not one. -/
def jq (instances : List (List Char × Instance)) (name : List Char) (field : Field) : List Char :=
  if isField name then
    match instances.lookup name, field with
    | none, _ => "null".toList
    | some inst, .command => printTexts inst.command
    | some inst, .pid => digits inst.pid
  else []

/-- What `stop_qmi` does: a process is sent a signal, the modem at a path is disconnected, and an
interface is deleted. -/
inductive StopEffect where
  | kill (pid : ℕ)
  | simpleDisconnect (path : String)
  | delInterface (interfaceName : List Char)
  deriving DecidableEq, Repr

/-- `kill $pid`. What is not a number is no process. -/
def kill (pid : List Char) : List StopEffect :=
  if pid ≠ [] ∧ pid.all Char.isDigit then [.kill (Nat.ofDigitChars 10 pid 0)] else []

/-- `modem_no` and the path of that modem are those of the caller. -/
def stopQmi (network : List Char) (modemNo : ℕ) (path : String) (instances : List Instance) :
    List StopEffect :=
  let response := response instances
  let instanceNumber := response.length
  (List.range' 1 instanceNumber).flatMap fun i =>
    let command := jq response ("instance".toList ++ digits i) .command
    let interfaceName := "wwan_5g_".toList ++ digits modemNo
    (if network <:+: command then kill (jq response (digits i) .pid) else [])
      ++ if interfaceName <:+: command then
          kill (jq response (digits i) .pid)
            ++ [.simpleDisconnect path, .delInterface interfaceName]
        else []

/-- The pids of the instances that have the network as an argument are killed, and no others. -/
def StopRight (network : List Char) (modemNo : ℕ) (path : String) (instances : List Instance) :
    Prop :=
  ∀ pid, .kill pid ∈ stopQmi network modemNo path instances
    ↔ ∃ inst ∈ instances, network ∈ inst.command.tail ∧ inst.pid = pid

end Dial

end BananaWrt
