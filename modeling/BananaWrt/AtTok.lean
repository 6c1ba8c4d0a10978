import BananaWrt.AtChannel
import Mathlib.Algebra.Group.Int.Defs
import Mathlib.Algebra.Group.Nat.Defs
import Mathlib.Data.List.Forall2

/-!
# The fields of an AT response

`at_tok.c` takes apart what is after the colon of a response line. The cursor is what is left of the
line, or nothing once it is NULL. A line is given without its NUL.
-/

namespace BananaWrt

namespace AtTok

open AtChannel (Line)

def isSpace (c : Char) : Bool := c = ' ' || ('\t'.toNat ≤ c.toNat && c.toNat ≤ '\r'.toNat)

def strsep (delim : Char) (s : Line) : Line × Option Line :=
  (s.takeWhile (· ≠ delim), (s.dropWhile (· ≠ delim)).tail?)

/-- The digit that a character is in a base, letters being digits from 10 on. -/
def digitVal (base : ℕ) (c : Char) : Option ℕ :=
  let v :=
    if '0'.toNat ≤ c.toNat ∧ c.toNat ≤ '9'.toNat then c.toNat - '0'.toNat
    else if 'a'.toNat ≤ c.toNat ∧ c.toNat ≤ 'z'.toNat then c.toNat - 'a'.toNat + 10
    else if 'A'.toNat ≤ c.toNat ∧ c.toNat ≤ 'Z'.toNat then c.toNat - 'A'.toNat + 10
    else base
  if v < base then some v else none

def isDigit (base : ℕ) (c : Char) : Bool := (digitVal base c).isSome

def magnitude (base : ℕ) (digits : Line) : ℕ :=
  digits.foldl (fun n c => base * n + (digitVal base c).getD 0) 0

def skipSign : Line → Bool × Line
  | [] => (false, [])
  | c :: s => if c = '-' then (true, s) else if c = '+' then (false, s) else (false, c :: s)

/-- A `0x` is skipped only if a digit comes after it. -/
def skipBasePrefix (base : ℕ) : Line → Line
  | z :: x :: c :: s =>
    if base = 16 ∧ z = '0' ∧ (x = 'x' ∨ x = 'X') ∧ isDigit 16 c then c :: s else z :: x :: c :: s
  | s => s

/-- The sign and the magnitude, none if there is no digit. -/
def parseNumber (base : ℕ) (s : Line) : Option (Bool × ℕ) :=
  let r := skipSign (s.dropWhile isSpace)
  let digits := (skipBasePrefix base r.2).takeWhile (isDigit base)
  if digits = [] then none else some (r.1, magnitude base digits)

/-- `long` has 64 bits. -/
def strtol (base : ℕ) (s : Line) : Option ℤ :=
  (parseNumber base s).map fun (neg, n) =>
    if neg then max (-(n : ℤ)) (-2 ^ 63) else min (n : ℤ) (2 ^ 63 - 1)

def strtoul (base : ℕ) (s : Line) : Option ℤ :=
  (parseNumber base s).map fun (neg, n) =>
    if 2 ^ 64 ≤ n then 2 ^ 64 - 1 else if neg then -(n : ℤ) % 2 ^ 64 else n

def atTokStart (line : Line) : Option Line := (line.dropWhile (· ≠ ':')).tail?

def skipWhiteSpace (cur : Line) : Line := cur.dropWhile isSpace

def skipNextComma (cur : Line) : Line := (cur.dropWhile (· ≠ ',')).tail

def nextTok (cur : Line) : Line × Option Line :=
  match skipWhiteSpace cur with
  | [] => strsep ',' []
  | c :: rest =>
    if c = '"' then ((strsep '"' rest).1, (strsep '"' rest).2.map skipNextComma)
    else strsep ',' (c :: rest)

/-- What is stored, which is 0 if there is no number, and the cursor, none if the call fails. -/
def atTokNextintBase (cur : Line) (base : ℕ) (uns : Bool) : ℤ × Option (Option Line) :=
  let r := nextTok cur
  let l := if uns then strtoul base r.1 else strtol base r.1
  ((l.getD 0).bmod (2 ^ 32), l.map fun _ => r.2)

def atTokNextint (cur : Line) : ℤ × Option (Option Line) := atTokNextintBase cur 10 false

def atTokNexthexint (cur : Line) : ℤ × Option (Option Line) := atTokNextintBase cur 16 true

/-- What is stored for a conversion. -/
inductive Out where
  | int (v : ℤ)
  | bool (v : Bool)
  | str (s : Line)
  deriving DecidableEq, Repr

def atTokNextbool (cur : Line) : Option Out × Option (Option Line) :=
  let r := atTokNextint cur
  if r.2.isSome ∧ (r.1 = 0 ∨ r.1 = 1) then (some (.bool (r.1 = 1)), r.2) else (none, none)

def atTokHasmore (cur : Option Line) : Bool := cur.any (!·.isEmpty)

def atTokCount (line : Line) : ℕ := line.count ','

/-- The conversions of a format, as far as it has the form that `at_tok_scanf` goes on with. -/
def conversions : Line → List Char
  | [] => []
  | [c] => if c = '%' then ['\x00'] else []
  | c :: c' :: fmt =>
    if c = ',' ∨ c = ' ' then conversions (c' :: fmt)
    else if c = '%' then c' :: conversions fmt
    else []

/-- The `switch` of `at_tok_scanf`: what is stored, and the cursor if the conversion succeeds. -/
def convert (conv : Char) (cur : Line) : Option Out × Option (Option Line) :=
  if conv = 'd' then ((atTokNextint cur).1 |> Out.int, (atTokNextint cur).2)
  else if conv = 'x' then ((atTokNexthexint cur).1 |> Out.int, (atTokNexthexint cur).2)
  else if conv = 'b' then atTokNextbool cur
  else if conv = 's' then (some (.str (nextTok cur).1), some (nextTok cur).2)
  else (none, none)

/-- How many conversions have succeeded, and what was stored for each that was tried. -/
def scan : List Char → Option Line → ℕ × List (Option Out)
  | [], _ => (0, [])
  | conv :: convs, cur =>
    if atTokHasmore cur then
      let line := cur.getD []
      if line.take 2 = ['-', ','] then
        let r := scan convs (some (line.drop 2))
        (r.1 + 1, (if conv = 'd' then some (.int (-1)) else none) :: r.2)
      else match convert conv line with
      | (out, none) => (0, [out])
      | (out, some cur) =>
        let r := scan convs cur
        (r.1 + 1, out :: r.2)
    else (0, [])

def sizeofLine : ℕ := 1024

/-- The line is copied to `s_line`, as far as it fits there. -/
def atTokScanf (inLine : Line) (fmt : Line) : ℕ × List (Option Out) :=
  match atTokStart (inLine.take (sizeofLine - 1)) with
  | none => (0, [])
  | some cur => scan (conversions fmt) (some cur)

/-- A number as it is written: a sign, in base 16 perhaps `0x`, and digits. -/
structure Numeral (base : ℕ) where
  sign : Option Bool
  basePrefix : Line
  digits : Line
  prefix_ok : basePrefix = [] ∨ (base = 16 ∧ (basePrefix = ['0', 'x'] ∨ basePrefix = ['0', 'X']))
  nonempty : digits ≠ []
  valid : ∀ c ∈ digits, isDigit base c

def Numeral.text {base : ℕ} (n : Numeral base) : Line :=
  n.sign.elim [] (fun neg => if neg then ['-'] else ['+']) ++ (n.basePrefix ++ n.digits)

def Numeral.value {base : ℕ} (n : Numeral base) : ℤ :=
  if n.sign = some true then -(magnitude base n.digits : ℤ) else magnitude base n.digits

inductive Field where
  | dec (n : Numeral 10)
  | hex (n : Numeral 16)
  | quoted (s : Line)
  | unquoted (s : Line)
  | dash

namespace Field

def text : Field → Line
  | dec n => n.text
  | hex n => n.text
  | quoted s => '"' :: (s ++ ['"'])
  | unquoted s => s
  | dash => ['-']

/-- The number is an `int`, and the string can be written this way. -/
def Valid : Field → Prop
  | dec n => -2 ^ 31 ≤ n.value ∧ n.value < 2 ^ 31
  | hex n => -2 ^ 31 ≤ n.value ∧ n.value < 2 ^ 31
  | quoted s => '"' ∉ s
  | unquoted s => s ≠ [] ∧ ',' ∉ s ∧ s ≠ ['-']
  | dash => True

/-- The conversion is one for such a field. -/
def Matches : Field → Char → Prop
  | dec n, conv => conv = 'd' ∨ (conv = 'b' ∧ (n.value = 0 ∨ n.value = 1))
  | hex _, conv => conv = 'x'
  | quoted _, conv => conv = 's'
  | unquoted _, conv => conv = 's'
  | dash, conv => conv = 'd' ∨ conv = 'x' ∨ conv = 'b' ∨ conv = 's'

/-- What is to be stored for the field; nothing is said of a `-` that is not under `%d`. -/
def Stored : Field → Char → Option Out → Prop
  | dec n, conv, out => out = some (if conv = 'b' then .bool (n.value = 1) else .int n.value)
  | hex n, _, out => out = some (.int n.value)
  | quoted s, _, out => out = some (.str s)
  | unquoted s, _, out => out = some (.str s)
  | dash, conv, out => conv = 'd' → out = some (.int (-1))

end Field

/-- A field with the blanks around it, and the conversion it is read with. -/
structure Item where
  before : Line
  field : Field
  after : Line
  conv : Char
  before_blank : ∀ c ∈ before, isSpace c
  after_blank : ∀ c ∈ after, isSpace c
  valid : field.Valid
  matches_conv : field.Matches conv

def Item.text (i : Item) : Line := i.before ++ (i.field.text ++ i.after)

/-- The items with commas between them. -/
def body : List Item → Line
  | [] => []
  | [i] => i.text
  | i :: is => i.text ++ ',' :: body is

def formatted (pre : Line) (is : List Item) : Line := pre ++ ':' :: ' ' :: body is

/-- All fields are read, each is stored in its place, and nothing else is stored. -/
structure ReadsBack (is : List Item) (r : ℕ × List (Option Out)) : Prop where
  count : r.1 = is.length
  stored : List.Forall₂ (fun i out => i.field.Stored i.conv out) is r.2

/-- An unquoted string begins with neither a blank nor a quote and no blank comes after it; a `-` is
read as a string, or it has no blank before it and a comma right behind it. -/
def Item.Readable (i : Item) (is : List Item) : Prop :=
  match i.field with
  | .unquoted s => i.after = [] ∧ ∀ c ∈ s.head?, isSpace c = false ∧ c ≠ '"'
  | .dash => i.conv = 's' ∨ (i.before = [] ∧ i.after = [] ∧ is ≠ [])
  | _ => True

def Readable : List Item → Prop
  | [] => True
  | i :: is => i.Readable is ∧ Readable is

/-- A number with blanks around it, perhaps in quotes. -/
structure Num (base : ℕ) where
  before : Line
  quoted : Bool
  numeral : Numeral base
  after : Line
  before_blank : ∀ c ∈ before, isSpace c
  after_blank : ∀ c ∈ after, isSpace c

def Num.text {base : ℕ} (x : Num base) : Line :=
  x.before ++ ((if x.quoted then '"' :: (x.numeral.text ++ ['"']) else x.numeral.text) ++ x.after)

theorem blank_nil : ∀ c ∈ ([] : Line), isSpace c := List.forall_mem_nil _

/-- A number under `%d` or under `%x`. -/
inductive Number where
  | dec (x : Num 10)
  | hex (x : Num 16)

namespace Number

def conv : Number → Char
  | dec _ => 'd'
  | hex _ => 'x'

def text : Number → Line
  | dec x => x.text
  | hex x => x.text

/-- The number as an `int`. -/
def read : Number → ℤ
  | dec x => ((strtol 10 x.numeral.text).getD 0).bmod (2 ^ 32)
  | hex x => ((strtoul 16 x.numeral.text).getD 0).bmod (2 ^ 32)

end Number

/-- How many characters come before the number. -/
def Num.lead {base : ℕ} (x : Num base) : ℕ := x.before.length + if x.quoted then 1 else 0

/-- What is read of a number if `m` characters of its text are there. -/
def Number.cut (m : ℕ) : Number → Option ℤ
  | dec x => (strtol 10 (x.numeral.text.take (m - x.lead))).map (·.bmod (2 ^ 32))
  | hex x => (strtoul 16 (x.numeral.text.take (m - x.lead))).map (·.bmod (2 ^ 32))

/-- What is read of numbers with commas between them if `m` characters are there, none if it is not
all of them. -/
def seen : List Number → ℕ → Option (List ℤ)
  | [], _ => some []
  | [x], m => (x.cut m).map ([·])
  | x :: xs, m =>
    if m ≤ x.text.length then none else (seen xs (m - (x.text.length + 1))).map (x.read :: ·)

/-- The numbers with commas between them. -/
def numbers : List Number → Line
  | [] => []
  | [x] => x.text
  | x :: xs => x.text ++ ',' :: numbers xs

end AtTok

end BananaWrt
