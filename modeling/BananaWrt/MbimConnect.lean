import BananaWrt.Lib.Writes

/-!
# The connect request of the MBIM client

`mbim_populate_connect_data` allocates a `MBIM_SET_CONNECT_T` with room for three strings behind
it, then writes each string's size, offset and UTF-16 text. The rest of the structure, filled in
by `mbim_set_connect`, is left zero here.
-/

namespace BananaWrt

namespace MbimConnect

open Bytes

def sizeofSetConnect : ℕ := 60

/-- Where the structure has `AccessStringOffset`; the size follows. -/
def accessString : ℕ := 8

def userName : ℕ := 16

def password : ℕ := 24

/-- `_align_32`. -/
def align32 (len : ℕ) : ℕ := len + if len % 4 ≠ 0 then 4 - len % 4 else 0

/-- The bytes that `char2wchar` writes; it returns their number. -/
def char2wchar (src : Bytes) (dstLen : ℕ) : Bytes :=
  (src.take (dstLen / 2)).flatMap fun c => [c, 0]

/-- What a string adds to `buflen`. -/
def sizeOf (s : Option Bytes) : ℕ :=
  match s with
  | some s => if 0 < s.length then 2 * s.length else 0
  | none => 0

/-- The first pass. -/
def connectBuflen (apn user passwd : Option Bytes) : ℕ :=
  let buflen := align32 (0 + sizeOf apn)
  let buflen := align32 (buflen + sizeOf user)
  align32 (buflen + sizeOf passwd)

/-- The second pass for one string, whose offset and size stand at `field`: the next offset and
what is written. The offset is what `char2wchar` returns, not what it was plus that. -/
def populateString (field buflen : ℕ) (align : ℕ → ℕ) (s : Option Bytes) (offset : ℕ) :
    ℕ × Writes :=
  match s with
  | some s =>
    if 0 < s.length then
      let wide := char2wchar s (buflen - offset)
      (align wide.length, [(field + 4, ofLe32 (2 * s.length)),
        (field, ofLe32 (offset + sizeofSetConnect)), (sizeofSetConnect + offset, wide)])
    else (offset, [])
  | none => (offset, [])

def populateApn (buflen : ℕ) : Option Bytes → ℕ → ℕ × Writes :=
  populateString accessString buflen align32

def populateUser (buflen : ℕ) : Option Bytes → ℕ → ℕ × Writes :=
  populateString userName buflen align32

/-- The last offset is not aligned. -/
def populatePasswd (buflen : ℕ) : Option Bytes → ℕ → ℕ × Writes :=
  populateString password buflen id

/-- The request, unless the length of the strings is beyond `int`. -/
def populateConnectData (apn user passwd : Option Bytes) : Option Bytes :=
  let buflen := connectBuflen apn user passwd
  if buflen < 2 ^ 31 then
    let x := populateApn buflen apn 0
    let y := populateUser buflen user x.1
    let z := populatePasswd buflen passwd y.1
    some (Writes.run (List.replicate (sizeofSetConnect + buflen) 0) (x.2 ++ y.2 ++ z.2))
  else none

end MbimConnect

end BananaWrt
