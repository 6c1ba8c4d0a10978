import BananaWrt.AtChannel
import Mathlib.Algebra.Group.Int.Defs
import Mathlib.Data.List.Infix
import Mathlib.Data.Option.Basic

/-!
# The DNS servers of an interface

`update_resolv_conf` puts the servers of an interface at the head of `resolv.conf`. It reads the
file with `fgets` into a table, leaves out what has the interface's tag in it and writes the table
back.
-/

namespace BananaWrt

namespace ResolvConf

open AtChannel (Line)

/-- What the calls of `fgets` return that read the rest of a file, `cur` being what the present call
has read. No call reads more than `room` characters. -/
def fgetsAll (room : ℕ) : Line → Line → List Line
  | cur, [] => if cur = [] then [] else [cur]
  | cur, c :: s =>
    if c = '\n' ∨ (cur ++ [c]).length = room then (cur ++ [c]) :: fgetsAll room [] s
    else fgetsAll room (cur ++ [c]) s

/-- The string that a buffer holds. -/
def cstr (buf : Line) : Line := buf.takeWhile (· ≠ '\x00')

def decimal (n : ℤ) : Line :=
  if n < 0 then '-' :: Nat.toDigits 10 n.natAbs else Nat.toDigits 10 n.natAbs

def IsDns (text : Line) : Prop :=
  text.length ≤ 63 ∧ ' ' ∉ text ∧ '\n' ∉ text ∧ '\x00' ∉ text

instance (text : Line) : Decidable (IsDns text) := by unfold IsDns; infer_instance

/-- An address as the callers print it, into at most 64 bytes. -/
structure Dns where
  text : Line
  isDns : IsDns text

def nameserver (tag dns : Line) : Line := "nameserver ".toList ++ dns ++ ' ' :: tag

/-- The arguments. The name is that of an adapter, which has 32 bytes. -/
structure Update where
  iptype : ℤ
  ifname : Line
  dns1 : Option Dns
  dns2 : Option Dns
  int_low : -2 ^ 31 ≤ iptype
  int_high : iptype < 2 ^ 31
  ifname_short : ifname.length ≤ 31
  ifname_line : '\n' ∉ ifname
  ifname_cstr : '\x00' ∉ ifname

namespace Update

variable (u : Update)

/-- `dns_tag`, which has 64 bytes. -/
def dnsTag : Line := ("# IPV".toList ++ decimal u.iptype ++ ' ' :: u.ifname).take 63

def newLines : List Line :=
  (u.dns1.toList ++ u.dns2.toList).map fun d => nameserver u.dnsTag d.text

end Update

def MAX_DNS : ℕ := 16

/-- A line that has nothing but its line feed keeps it. -/
def chomp (s : Line) : Line :=
  if 1 < s.length ∧ s.getLast? = some '\n' then s.dropLast else s

/-- `dns_match` and `dns_info`, once `i` entries of the table are taken. -/
def scanFile (tag : Line) : ℕ → List Line → ℕ × List Line
  | _, [] => (0, [])
  | i, buf :: bufs =>
    let line := chomp (cstr buf)
    if tag <:+: line then ((scanFile tag i bufs).1 + 1, (scanFile tag i bufs).2)
    else if i + 1 = MAX_DNS then (0, [line])
    else ((scanFile tag (i + 1) bufs).1, line :: (scanFile tag (i + 1) bufs).2)

def printLines (ls : List Line) : Line := ls.flatMap (· ++ ['\n'])

/-- The file after the call, which is none while there is no file. -/
def updateResolvConf (u : Update) (file : Option Line) : Option Line :=
  let r := scanFile u.dnsTag 0 (fgetsAll 254 [] (file.getD []))
  if u.dns1 = none ∧ r.1 = 0 then file
  else some (printLines (u.newLines ++ r.2))

/-- The lines of a text, and whether a line feed is behind them. -/
def splitLines : Line → List (Line × Bool)
  | [] => []
  | c :: s =>
    if c = '\n' then ([], true) :: splitLines s
    else match splitLines s with
      | [] => [([c], false)]
      | (l, b) :: ls => (c :: l, b) :: ls

def linesOf (file : Option Line) : List (Line × Bool) := splitLines (file.getD [])

def lines (file : Option Line) : List Line := (linesOf file).map Prod.fst

section Owned

variable (tag : Line)

/-- A line that a call with the tag writes. -/
def Owned (l : Line) : Prop := ∃ d : Dns, l = nameserver tag d.text

/-- What a line has in the place of the address. -/
def dnsIn (l : Line) : Line := (l.drop 11).take (l.length - 12 - tag.length)

theorem length_nameserver (dns : Line) :
    (nameserver tag dns).length = 11 + dns.length + (tag.length + 1) := by
  unfold nameserver
  rw [List.length_append, List.length_append, List.length_cons]
  rfl

theorem dnsIn_nameserver (dns : Line) : dnsIn tag (nameserver tag dns) = dns := by
  have hlen : (nameserver tag dns).length - 12 - tag.length = dns.length := by
    rw [length_nameserver]
    omega
  have hdrop : (nameserver tag dns).drop 11 = dns ++ ' ' :: tag := by
    unfold nameserver
    rw [List.append_assoc]
    exact List.drop_left' rfl
  rw [dnsIn, hlen, hdrop, List.take_left]

theorem owned_iff {l : Line} :
    IsDns (dnsIn tag l) ∧ l = nameserver tag (dnsIn tag l) ↔ Owned tag l := by
  refine ⟨fun h => ⟨⟨_, h.1⟩, h.2⟩, ?_⟩
  rintro ⟨d, rfl⟩
  rw [dnsIn_nameserver]
  exact ⟨d.isDns, rfl⟩

instance : DecidablePred (Owned tag) := fun _ => decidable_of_iff _ (owned_iff tag)

end Owned

namespace Update

variable (u : Update)

/-- The new lines, and after them what is not owned as it was. -/
def KeepsForeign (file : Option Line) : Prop :=
  lines (updateResolvConf u file) = u.newLines ++ (lines file).filter fun l => ¬ Owned u.dnsTag l

end Update

/-- The tag is in one of the lines, and fewer than `room` lines before it do without. -/
def Reached (tag : Line) (room : ℕ) (ls : List Line) : Prop :=
  ∃ before line after, ls = before ++ line :: after ∧ tag <:+: line
    ∧ (before.filter fun l => ¬ tag <:+: l).length < room

namespace Update

variable (u : Update)

def entriesOf (file : Option Line) : List Line :=
  (fgetsAll 254 [] (file.getD [])).map fun buf => chomp (cstr buf)

/-- The tag is in what one of the calls reads before the table is full. -/
def Matched (file : Option Line) : Prop := Reached u.dnsTag MAX_DNS (entriesOf file)

end Update

/-- The lines come back out of a table with `room` entries left. A line that fills the buffer is
read with its line feed apart, which is an entry as that of a blank line is, and such an entry is
written as two blank lines. So after the first of either the lines only come back if there are
nothing but blank ones, and as many as the rest of the table is written as. -/
def Returns : ℕ → List (Line × Bool) → Prop
  | _, [] => True
  | 0, _ :: _ => False
  | room + 1, (l, terminated) :: ls =>
    if l = [] then (∀ t ∈ ls, t.1 = []) ∧ ls.length = 2 * room + 1
    else if terminated ∧ l.length = 254 then (∀ t ∈ ls, t.1 = []) ∧ ls.length = 2 * room
    else Returns room ls

instance decidableReturns : ∀ room ls, Decidable (Returns room ls)
  | room, [] => .isTrue (by cases room <;> trivial)
  | 0, _ :: _ => .isFalse id
  | room + 1, (l, terminated) :: ls =>
    have := decidableReturns room ls
    inferInstanceAs (Decidable (if l = [] then _ else if terminated ∧ l.length = 254 then _ else _))

/-- Whether the file is written again is decided by the first server and what was found. -/
def Update.Clean (u : Update) (file : Option Line) : Prop :=
  (u.dns1 = none ∧ ¬ u.Matched file → u.dns2 = none ∧ ∀ l ∈ lines file, ¬ Owned u.dnsTag l)
  ∧ (¬ (u.dns1 = none ∧ ¬ u.Matched file) →
    (∀ l ∈ lines file, u.dnsTag <:+: l → Owned u.dnsTag l) ∧ (∀ l ∈ lines file, '\x00' ∉ l)
    ∧ (∀ l ∈ lines file, l.length ≤ 254)
    ∧ Returns MAX_DNS ((linesOf file).filter fun t => ¬ Owned u.dnsTag t.1))

end ResolvConf

end BananaWrt
