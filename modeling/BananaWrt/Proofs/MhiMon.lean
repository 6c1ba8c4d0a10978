import Mathlib.Data.List.Nodup
import BananaWrt.Lib.Keyed
import BananaWrt.Lib.Lines
import BananaWrt.Lib.Run
import BananaWrt.MhiMon

/-!
# What the monitor shows

The text of an event fits in the buffer that it is printed to, and says all of the event: two lists
of events with the same text are the same. From there it is an account of the text: what a reader
has got, what is left of the line that it is at, and the lines of the events that it still has are
the text of the events that it has kept. A read moves a part of it, unless the copy of the first
part of a line fails.
-/

namespace BananaWrt

namespace MhiMon

open Printf (Sink number signed)

section Lines

theorem notMem_number {b w n : ℕ} {c : Char} (hb : 1 < b) (hb' : b ≤ 16)
    (hc : ∀ d < 16, Nat.digitChar d ≠ c) : c ∉ number b w n := fun h =>
  (Printf.isDigit_of_mem_number hb hb' h).ne hc rfl

theorem notMem_signed {w : ℕ} {n : ℤ} {c : Char} (hminus : c ≠ '-')
    (hc : ∀ d < 16, Nat.digitChar d ≠ c) : c ∉ signed w n := fun h =>
  (Printf.mem_signed h).elim hminus fun hd => hd.ne hc rfl

theorem blank_notMem_dec {w n : ℕ} : ' ' ∉ number 10 w n :=
  notMem_number (by decide) (by decide) (by decide)

theorem blank_notMem_hex {w n : ℕ} : ' ' ∉ number 16 w n :=
  notMem_number (by decide) (by decide) (by decide)

theorem blank_notMem_signed {w : ℕ} {n : ℤ} : ' ' ∉ signed w n :=
  notMem_signed (by decide) (by decide)

theorem newline_notMem_dec {w n : ℕ} : '\n' ∉ number 10 w n :=
  notMem_number (by decide) (by decide) (by decide)

theorem newline_notMem_hex {w n : ℕ} : '\n' ∉ number 16 w n :=
  notMem_number (by decide) (by decide) (by decide)

theorem newline_notMem_signed {w : ℕ} {n : ℤ} : '\n' ∉ signed w n :=
  notMem_signed (by decide) (by decide)

namespace Event

variable (e : Event)

/-- The bytes, as the loop shows them. -/
def dataText (i : ℕ) (bs : List (BitVec 8)) : List Char := (dataPieces i bs).flatten

/-- The line without the line feed. -/
def body : List Char := e.headText ++ dataText 0 e.data

theorem line_eq : e.line = e.body ++ ['\n'] := by
  have hdata : (if e.data.length ≠ 0 then dataPieces 0 e.data else []) = dataPieces 0 e.data := by
    split_ifs with h
    · rfl
    · rw [List.length_eq_zero_iff.1 (not_not.1 h)]
      rfl
  rw [line, pieces, hdata, List.cons_append, List.flatten_cons, List.flatten_append, body,
    dataText, List.append_assoc]
  rfl

theorem dataText_cons (i : ℕ) (b : BitVec 8) (bs : List (BitVec 8)) : dataText i (b :: bs) =
    (if i % 4 = 0 then [' '] else []) ++ (number 16 2 b.toNat ++ dataText (i + 1) bs) := by
  unfold dataText
  rw [dataPieces]
  split_ifs <;> rfl

theorem length_byte (b : BitVec 8) : (number 16 2 b.toNat).length = 2 :=
  Printf.length_number_eq (by decide) (by decide) (Nat.lt_of_lt_of_eq b.isLt (by decide))

theorem length_dataText_le : ∀ (i : ℕ) (bs : List (BitVec 8)),
    (dataText i bs).length ≤ 3 * bs.length
  | _, [] => Nat.le_refl 0
  | i, b :: bs => by
    have ih := length_dataText_le (i + 1) bs
    have hbyte := length_byte b
    rw [dataText_cons, List.length_append, List.length_append, List.length_cons]
    split_ifs
    · rw [List.length_singleton]
      omega
    · rw [List.length_nil]
      omega

theorem newline_notMem_dataText : ∀ (i : ℕ) (bs : List (BitVec 8)), '\n' ∉ dataText i bs
  | _, [] => List.not_mem_nil
  | i, b :: bs => by
    have ih := newline_notMem_dataText (i + 1) bs
    rw [dataText_cons, List.mem_append, List.mem_append]
    rintro (h | h | h)
    · split_ifs at h
      · exact absurd (List.mem_singleton.1 h) (by decide)
      · exact List.not_mem_nil h
    · exact newline_notMem_hex h
    · exact ih h

/-- Without the blanks it is two digits for each byte. -/
theorem filter_dataText : ∀ (i : ℕ) (bs : List (BitVec 8)),
    (dataText i bs).filter (· ≠ ' ') = bs.flatMap fun b => number 16 2 b.toNat
  | _, [] => rfl
  | i, b :: bs => by
    have hblank : (if i % 4 = 0 then [' '] else []).filter (· ≠ ' ') = [] := by
      split_ifs <;> rfl
    have hbyte : (number 16 2 b.toNat).filter (· ≠ ' ') = number 16 2 b.toNat :=
      List.filter_eq_self.2 fun c hc => decide_eq_true fun heq => blank_notMem_hex (heq ▸ hc)
    rw [dataText_cons, List.filter_append, List.filter_append, hblank, hbyte,
      filter_dataText (i + 1) bs]
    rfl

theorem dataText_injective {i : ℕ} {bs bs' : List (BitVec 8)} (h : dataText i bs = dataText i bs') :
    bs = bs' := by
  have hflat := congrArg (List.filter (· ≠ ' ')) h
  rw [filter_dataText, filter_dataText] at hflat
  refine Printf.flatMap_injective (k := 2) (by decide) length_byte (fun b b' hb => ?_) hflat
  exact BitVec.eq_of_toNat_eq (Printf.number_injective (by decide) (by decide) 2 hb)

theorem char_injective {t t' : EvType} (h : t.char = t'.char) : t = t' := by
  cases t <;> cases t' <;> first | rfl | cases h

/-- The conversions one after the other: a blank ends each number but the last of the head, which
has eight digits. -/
theorem body_injective {e e' : Event} (h : e.body = e'.body) : e = e' := by
  have height : ∀ d : BitVec 32, (number 16 8 d.toNat).length = 8 := fun d =>
    Printf.length_number_eq (by decide) (by decide) (Nat.lt_of_lt_of_eq d.isLt (by decide))
  have hhex : ∀ {w n m : ℕ}, number 16 w n = number 16 w m → n = m := fun h =>
    Printf.number_injective (by decide) (by decide) _ h
  simp only [body, headText, List.append_assoc, List.cons_append] at h
  obtain ⟨htstamp, h⟩ := Printf.append_sep_injective blank_notMem_dec blank_notMem_dec h
  obtain ⟨htype, h⟩ := List.cons.inj h
  obtain ⟨hchan, h⟩ := Printf.append_sep_injective blank_notMem_signed blank_notMem_signed
    (List.cons.inj h).2
  have h := (List.cons.inj (List.cons.inj (List.cons.inj h).2).2).2
  obtain ⟨hwp, h⟩ := Printf.append_sep_injective blank_notMem_hex blank_notMem_hex h
  have h := (List.cons.inj (List.cons.inj (List.cons.inj h).2).2).2
  have h := (List.cons.inj (List.cons.inj h).2).2
  obtain ⟨hptr, h⟩ := Printf.append_sep_injective blank_notMem_hex blank_notMem_hex h
  obtain ⟨hdword0, h⟩ := Printf.append_sep_injective blank_notMem_hex blank_notMem_hex h
  obtain ⟨hdword1, hdata⟩ := List.append_inj h ((height _).trans (height _).symm)
  obtain ⟨type, tstamp, chan, wp, ptr, dword0, dword1, data, data_le⟩ := e
  obtain ⟨type', tstamp', chan', wp', ptr', dword0', dword1', data', data_le'⟩ := e'
  obtain rfl := char_injective htype
  obtain rfl := BitVec.eq_of_toNat_eq
    (Printf.number_injective (by decide) (by decide) _ htstamp)
  obtain rfl := BitVec.eq_of_toInt_eq (Printf.signed_injective _ hchan)
  obtain rfl := BitVec.eq_of_toNat_eq (hhex hwp)
  obtain rfl := BitVec.eq_of_toNat_eq (hhex hptr)
  obtain rfl := BitVec.eq_of_toNat_eq (hhex hdword0)
  obtain rfl := BitVec.eq_of_toNat_eq (hhex hdword1)
  obtain rfl := dataText_injective hdata
  rfl

theorem length_headText_le : e.headText.length ≤ 84 := by
  have hdec : (number 10 0 e.tstamp.toNat).length ≤ 10 :=
    Printf.length_number_le (by decide) (by decide) (by decide) (by have := e.tstamp.isLt; omega)
  have hchan : (signed 3 e.chan.toInt).length ≤ 10 + 1 :=
    Printf.length_signed_le (by decide) (by decide) (by
      have hlow := e.chan.le_toInt
      have hhigh := e.chan.toInt_lt
      omega)
  have hwide : ∀ b : BitVec 64, (number 16 0 b.toNat).length ≤ 16 := fun b =>
    Printf.length_number_le (by decide) (by decide) (by decide)
      (Nat.lt_of_lt_of_eq b.isLt (by decide))
  have height : ∀ d : BitVec 32, (number 16 8 d.toNat).length = 8 := fun d =>
    Printf.length_number_eq (by decide) (by decide) (Nat.lt_of_lt_of_eq d.isLt (by decide))
  have hwp := hwide e.wp
  have hptr := hwide e.ptr
  simp only [headText, List.length_append, List.length_cons, height]
  omega

theorem newline_notMem_body : '\n' ∉ e.body := by
  have htype : '\n' ≠ e.type.char := by cases e.type <;> decide
  simp only [body, headText, List.mem_append, List.mem_cons, newline_notMem_dec,
    newline_notMem_hex, newline_notMem_signed, newline_notMem_dataText, htype]
  decide

theorem length_line_lt : e.line.length < PRINTF_DFL := by
  have hhead := e.length_headText_le
  have hdata := length_dataText_le 0 e.data
  have hle : e.data.length ≤ 32 := e.data_le
  have hlen : e.line.length = e.headText.length + (dataText 0 e.data).length + 1 := by
    rw [line_eq, body, List.length_append, List.length_append, List.length_singleton]
  unfold PRINTF_DFL
  omega

/-- It has all been printed. -/
theorem print_eq : e.print = Sink.full e.line := by
  have hfits := e.length_line_lt
  rw [print, Printf.Sink.foldl_put_full, List.nil_append]
  · rfl
  · rw [List.length_nil, Nat.zero_add]
    exact hfits

end Event

theorem textOf_injective {es es' : List Event} (h : textOf es = textOf es') : es = es' := by
  have hmap : ∀ es : List Event, textOf es = (es.map Event.body).flatMap fun l => l ++ ['\n'] := by
    intro es
    rw [List.flatMap_map]
    exact congrArg (fun f => es.flatMap f) (funext Event.line_eq)
  have hlines : ∀ es : List Event, ((textOf es).splitOn '\n').dropLast = es.map Event.body := by
    intro es
    rw [hmap]
    refine List.dropLast_splitOn_flatMap fun l hl => ?_
    obtain ⟨e, -, rfl⟩ := List.mem_map.1 hl
    exact e.newline_notMem_body
  have hbodies : es.map Event.body = es'.map Event.body := by rw [← hlines, h, hlines]
  exact List.map_injective_iff.2 (fun _ _ => Event.body_injective) hbodies

end Lines

namespace Reader

variable {rp : Reader} {e : Event} {es : List Event} {nbytes : ℕ} {fault : Bool}

/-- What is left of a line goes to its end. -/
def Ends (rp : Reader) : Prop := rp.leftSize ≠ 0 → rp.leftPos + rp.leftSize = rp.printfBuf.length

theorem left_of_zero {r : Reader} (h : r.leftSize = 0) : r.left = [] := by
  rw [left, h, List.take_zero]

/-- A part of what is left goes to the user. -/
theorem readLeft_ok (h : rp.Ends) (nbytes : ℕ) : ∃ text,
    (rp.readLeft nbytes false).2 = .ok text ∧ text ++ (rp.readLeft nbytes false).1.left = rp.left
      ∧ (rp.readLeft nbytes false).1.Ends := by
  refine ⟨_, rfl, ?_, fun hne => ?_⟩
  · change (rp.printfBuf.drop rp.leftPos).take (min rp.leftSize nbytes)
      ++ (rp.printfBuf.drop (rp.leftPos + min rp.leftSize nbytes)).take
        (rp.leftSize - min rp.leftSize nbytes) = _
    rw [← List.drop_drop, ← List.take_add, Nat.add_sub_cancel' (Nat.min_le_left _ _)]
    rfl
  · change rp.leftSize - min rp.leftSize nbytes ≠ 0 at hne
    change rp.leftPos + min rp.leftSize nbytes + (rp.leftSize - min rp.leftSize nbytes)
      = rp.printfBuf.length
    have hends := h (by omega)
    omega

theorem keepRest_lt {t : List Char} (h : nbytes < t.length) :
    rp.keepRest (Sink.full t) nbytes =
      { rp with printfBuf := t, leftPos := nbytes, leftSize := t.length - nbytes } :=
  if_pos h

theorem keepRest_le {t : List Char} (h : t.length ≤ nbytes) :
    rp.keepRest (Sink.full t) nbytes = { rp with printfBuf := t } :=
  if_neg (Nat.not_lt_of_le h)

theorem keepRest_frame (rp : Reader) (t : List Char) (nbytes : ℕ) :
    (rp.keepRest (Sink.full t) nbytes).printfBuf = t
      ∧ (rp.keepRest (Sink.full t) nbytes).eList = rp.eList
      ∧ (rp.keepRest (Sink.full t) nbytes).nevents = rp.nevents := by
  rcases Nat.lt_or_ge nbytes t.length with h | h
  · rw [keepRest_lt h]
    exact ⟨rfl, rfl, rfl⟩
  · rw [keepRest_le h]
    exact ⟨rfl, rfl, rfl⟩

theorem left_keepRest {r : Reader} (h : r.leftSize = 0) (t : List Char) (nbytes : ℕ) :
    (r.keepRest (Sink.full t) nbytes).left = t.drop nbytes
      ∧ (r.keepRest (Sink.full t) nbytes).Ends := by
  rcases Nat.lt_or_ge nbytes t.length with hlt | hle
  · rw [keepRest_lt hlt]
    refine ⟨List.take_of_length_le ?_, fun _ => Nat.add_sub_cancel' (Nat.le_of_lt hlt)⟩
    exact Nat.le_of_eq List.length_drop
  · rw [keepRest_le hle]
    refine ⟨?_, fun hne => absurd h hne⟩
    rw [left_of_zero (r := { r with printfBuf := t }) h, List.drop_of_length_le hle]

/-- The first part of a line goes to the user, or nowhere. -/
theorem readEvent_eq (rp : Reader) (e : Event) (nbytes : ℕ) (fault : Bool) :
    rp.readEvent e nbytes fault = (rp.keepRest (Sink.full e.line) nbytes,
      if fault then .error (- EFAULT) else .ok (e.line.take nbytes)) := by
  have htake : e.line.take (min e.line.length nbytes) = e.line.take nbytes :=
    List.take_eq_take_iff.2 (by omega)
  unfold readEvent
  rw [Event.print_eq]
  dsimp only
  rw [(keepRest_frame rp e.line nbytes).1]
  exact congrArg (fun t => (_, if fault then _ else Except.ok t)) htake

end Reader

/-- What is to be right of a file, with the account of its text. -/
structure File.Sound (f : File) (log : List Event) : Prop where
  since : f.since ≤ log.length
  kept : (f.kept.map Event.untimed).Sublist (log.drop f.since)
  lost : f.kept.length + f.lost = (log.drop f.since).length
  pending : f.reader.eList <:+ f.kept
  nevents : f.reader.nevents = f.reader.eList.length
  bounded : f.reader.nevents ≤ EVENT_MAX
  ends : f.reader.Ends
  shown : f.failed = false → f.shown = textOf f.kept
  missing : f.failed = true → f.shown.length < (textOf f.kept).length

section Files

variable {f : File} {log : List Event} {e : Event} {nbytes : ℕ} {fault : Bool}

theorem textOf_append (es es' : List Event) : textOf (es ++ es') = textOf es ++ textOf es' :=
  List.flatMap_append

theorem textOf_singleton (e : Event) : textOf [e] = e.line := List.append_nil e.line

theorem textOf_cons (e : Event) (es : List Event) : textOf (e :: es) = e.line ++ textOf es := rfl

theorem File.Sound.right (h : f.Sound log) : f.Right log := by
  refine ⟨h.kept, h.lost, h.pending, h.nevents, h.bounded, fun hf es => ?_, fun hf heq => ?_⟩
  · rw [h.shown hf]
    exact ⟨fun heq => (textOf_injective heq).symm, fun heq => heq ▸ rfl⟩
  · exact Nat.lt_irrefl _ (heq ▸ h.missing hf)

/-- A file that is opened now. -/
theorem sound_new (fd : ℕ) (log : List Event) : (File.new fd log.length).Sound log := by
  have hdrop : log.drop log.length = [] := List.drop_length
  refine ⟨Nat.le_refl _, ?_, ?_, List.suffix_rfl, rfl, Nat.zero_le _, fun hne => absurd rfl hne,
    fun _ => rfl, fun hf => Bool.noConfusion hf⟩
  · change [].Sublist (log.drop log.length)
    rw [hdrop]
  · change 0 + 0 = (log.drop log.length).length
    rw [hdrop, List.length_nil]

/-- An event is kept, or counted as lost: by the file, and by the bus, where `k` are those that
others have lost. -/
theorem sound_offer (h : f.Sound log) (e : Event) (alloc : Bool) (cnt : BitVec 32) :
    (f.offer e alloc cnt).1.Sound (log ++ [e.untimed])
      ∧ (∀ k, cnt = BitVec.ofNat 32 (k + f.lost) →
        (f.offer e alloc cnt).2 = BitVec.ofNat 32 (k + (f.offer e alloc cnt).1.lost))
      ∧ (f.offer e alloc cnt).1.fd = f.fd := by
  have hdrop : (log ++ [e.untimed]).drop f.since = log.drop f.since ++ [e.untimed] :=
    List.drop_append_of_le_length h.since
  have hsince : f.since ≤ (log ++ [e.untimed]).length := by
    rw [List.length_append]
    exact Nat.le_add_right_of_le h.since
  have hlost : f.kept.length + f.lost + 1 = ((log ++ [e.untimed]).drop f.since).length := by
    rw [hdrop, List.length_append, h.lost, List.length_singleton]
  by_cases hfull : EVENT_MAX ≤ f.reader.nevents ∨ alloc = false
  · have hoffer : f.offer e alloc cnt = ({ f with lost := f.lost + 1 }, cnt + 1) := by
      simp only [File.offer, Reader.monTextEvent, if_pos hfull]
    rw [hoffer]
    refine ⟨⟨hsince, ?_, hlost, h.pending, h.nevents, h.bounded, h.ends, h.shown, h.missing⟩,
      fun k hcnt => ?_, rfl⟩
    · exact hdrop ▸ h.kept.trans (List.sublist_append_left _ _)
    · change cnt + 1 = BitVec.ofNat 32 (k + f.lost + 1)
      rw [BitVec.ofNat_add, hcnt]
      rfl
  · have hoffer : f.offer e alloc cnt = ({ f with
        reader := { f.reader with nevents := f.reader.nevents + 1, eList := f.reader.eList ++ [e] }
        kept := f.kept ++ [e] }, cnt) := by
      simp only [File.offer, Reader.monTextEvent, if_neg hfull]
    have hshown : (f.offer e alloc cnt).1.shown = f.shown ++ e.line := by
      rw [hoffer]
      change f.got ++ (f.reader.left ++ textOf (f.reader.eList ++ [e])) = _
      rw [textOf_append, textOf_singleton, ← List.append_assoc f.reader.left, ← List.append_assoc]
      rfl
    have hkept : textOf (f.kept ++ [e]) = textOf f.kept ++ e.line := by
      rw [textOf_append, textOf_singleton]
    rw [hoffer] at hshown
    rw [hoffer]
    refine ⟨⟨hsince, ?_, ?_, ?_, ?_, ?_, h.ends, fun hf => ?_, fun hf => ?_⟩,
      fun _ hcnt => hcnt, rfl⟩
    · rw [hdrop, List.map_append]
      exact h.kept.append (List.Sublist.refl [e.untimed])
    · change (f.kept ++ [e]).length + f.lost = _
      rw [← hlost, List.length_append, List.length_singleton, Nat.add_right_comm]
    · obtain ⟨l, hl⟩ := h.pending
      exact ⟨l, by rw [← List.append_assoc, hl]⟩
    · change f.reader.nevents + 1 = (f.reader.eList ++ [e]).length
      rw [List.length_append, List.length_singleton, h.nevents]
    · exact Nat.lt_of_not_le fun hle => hfull (Or.inl hle)
    · exact hshown.trans (hkept ▸ congrArg (· ++ e.line) (h.shown hf))
    · rw [hshown, hkept, List.length_append, List.length_append]
      exact Nat.add_lt_add_right (h.missing hf) _

theorem line_ne_nil (e : Event) : e.line ≠ [] := by
  rw [Event.line_eq]
  exact List.append_ne_nil_of_right_ne_nil _ (List.cons_ne_nil _ _)

/-- A read that finds something left. -/
theorem sound_readLeft (h : f.Sound log) (hleft : f.reader.leftSize ≠ 0) (nbytes : ℕ)
    (fault : Bool) : (f.read nbytes fault).Sound log := by
  have hread : f.reader.monTextReadU nbytes fault = f.reader.readLeft nbytes fault := if_pos hleft
  cases fault with
  | true =>
    have htakes : decide f.Takes = false := decide_eq_false fun ht => hleft ht.1
    have hsame : f.read nbytes true = f := by
      rw [File.read, hread]
      change { f with failed := f.failed || decide f.Takes } = f
      rw [htakes, Bool.or_false]
    exact hsame.symm ▸ h
  | false =>
    obtain ⟨text, htext, hleft', hends⟩ := Reader.readLeft_ok h.ends nbytes
    have hfile : f.read nbytes false = { f with
        reader := (f.reader.readLeft nbytes false).1, got := f.got ++ text } := by
      rw [File.read, hread]
      cases htext
      rfl
    have hshown : (f.read nbytes false).shown = f.shown := by
      rw [hfile]
      change f.got ++ text ++ (_ ++ textOf f.reader.eList) = _
      rw [List.append_assoc, ← List.append_assoc text, hleft']
      rfl
    rw [hfile] at hshown ⊢
    exact ⟨h.since, h.kept, h.lost, h.pending, h.nevents, h.bounded, hends,
      fun hf => hshown.trans (h.shown hf), fun hf => hshown.symm ▸ h.missing hf⟩

/-- A read that takes an event, if there is one. -/
theorem sound_readNext (h : f.Sound log) (hleft : f.reader.leftSize = 0)
    (hpos : fault = true → 0 < nbytes) : (f.read nbytes fault).Sound log := by
  cases hlist : f.reader.eList with
  | nil =>
    have hread : f.reader.monTextReadU nbytes fault = (f.reader, .error (- EWOULDBLOCK)) := by
      rw [Reader.monTextReadU, if_neg (not_not_intro hleft), Reader.monTextFetch]
      simp only [hlist]
    have htakes : decide f.Takes = false := decide_eq_false fun ht => ht.2 hlist
    have hsame : f.read nbytes fault = f := by
      rw [File.read, hread]
      change { f with failed := f.failed || decide f.Takes } = f
      rw [htakes, Bool.or_false]
    exact hsame.symm ▸ h
  | cons e es =>
    let rp : Reader := { f.reader with nevents := f.reader.nevents - 1, eList := es }
    have hread : f.reader.monTextReadU nbytes fault = (rp.keepRest (Sink.full e.line) nbytes,
        if fault then .error (- EFAULT) else .ok (e.line.take nbytes)) := by
      rw [← Reader.readEvent_eq rp e nbytes fault, Reader.monTextReadU,
        if_neg (not_not_intro hleft), Reader.monTextFetch]
      simp only [hlist]
      rfl
    obtain ⟨-, hes, hnevents⟩ := Reader.keepRest_frame rp e.line nbytes
    obtain ⟨hrest, hends⟩ := Reader.left_keepRest (r := rp) hleft e.line nbytes
    have hpending : (rp.keepRest (Sink.full e.line) nbytes).eList <:+ f.kept :=
      hes ▸ (List.suffix_cons e es).trans (hlist ▸ h.pending)
    have hcount : f.reader.nevents = es.length + 1 := by
      rw [h.nevents, hlist, List.length_cons]
    have hnevents' : (rp.keepRest (Sink.full e.line) nbytes).nevents
        = (rp.keepRest (Sink.full e.line) nbytes).eList.length := by
      rw [hes, hnevents]
      change f.reader.nevents - 1 = es.length
      omega
    have hbounded : (rp.keepRest (Sink.full e.line) nbytes).nevents ≤ EVENT_MAX := by
      rw [hnevents]
      exact Nat.le_trans (Nat.sub_le _ _) h.bounded
    have hbefore : f.shown = f.got ++ (e.line ++ textOf es) := by
      rw [File.shown, Reader.left_of_zero hleft, hlist, List.nil_append, textOf_cons]
    cases fault with
    | false =>
      have hfile : f.read nbytes false = { f with
          reader := rp.keepRest (Sink.full e.line) nbytes
          got := f.got ++ e.line.take nbytes } := by
        rw [File.read, hread]
        rfl
      have hshown : (f.read nbytes false).shown = f.shown := by
        rw [hbefore, hfile]
        change f.got ++ e.line.take nbytes ++ (_ ++ textOf _) = _
        rw [hrest, hes, List.append_assoc, ← List.append_assoc (e.line.take nbytes),
          List.take_append_drop]
      rw [hfile] at hshown ⊢
      exact ⟨h.since, h.kept, h.lost, hpending, hnevents', hbounded, hends,
        fun hf => hshown.trans (h.shown hf), fun hf => hshown.symm ▸ h.missing hf⟩
    | true =>
      have htakes : decide f.Takes = true :=
        decide_eq_true ⟨hleft, fun hnil => List.cons_ne_nil e es (hlist.symm.trans hnil)⟩
      have hfile : f.read nbytes true = { f with
          reader := rp.keepRest (Sink.full e.line) nbytes, failed := true } := by
        rw [File.read, hread]
        change { f with reader := _, failed := f.failed || decide f.Takes } = _
        rw [htakes, Bool.or_true]
      -- the first part of the line has gone
      have hshorter : (f.read nbytes true).shown.length < f.shown.length := by
        have hafter : (f.read nbytes true).shown
            = f.got ++ (e.line.drop nbytes ++ textOf es) := by
          rw [hfile, ← hrest]
          exact congrArg (fun l => f.got ++ (_ ++ textOf l)) hes
        rw [hbefore, hafter]
        have hline := List.length_pos_of_ne_nil (line_ne_nil e)
        have hn := hpos rfl
        simp only [List.length_append, List.length_drop]
        omega
      rw [hfile] at hshorter ⊢
      refine ⟨h.since, h.kept, h.lost, hpending, hnevents', hbounded, hends,
        fun hf => Bool.noConfusion hf, fun _ => Nat.lt_of_lt_of_le hshorter ?_⟩
      cases hf : f.failed with
      | false => exact Nat.le_of_eq (congrArg List.length (h.shown hf))
      | true => exact Nat.le_of_lt (h.missing hf)

theorem sound_read (h : f.Sound log) (hpos : fault = true → 0 < nbytes) :
    (f.read nbytes fault).Sound log := by
  by_cases hleft : f.reader.leftSize = 0
  · exact sound_readNext h hleft hpos
  · exact sound_readLeft h hleft nbytes fault

theorem read_frame (f : File) (nbytes : ℕ) (fault : Bool) :
    (f.read nbytes fault).fd = f.fd ∧ (f.read nbytes fault).lost = f.lost := by
  unfold File.read
  split <;> exact ⟨rfl, rfl⟩

end Files

/-! ## Runs -/

/-- The files are right, no two of them have the same descriptor, and the counters of the bus. -/
structure Sound (s : St) : Prop where
  files : ∀ f ∈ s.rList, f.Sound s.log
  fds : (s.rList.map File.fd).Nodup
  nreaders : s.nreaders = s.rList.length
  cntTextLost : s.cntTextLost = BitVec.ofNat 32 (s.closedLost + (s.rList.map File.lost).sum)

section Runs

variable {s s' : St}

theorem Sound.right (h : Sound s) : Right s :=
  ⟨fun f hf => (h.files f hf).right, h.nreaders, h.cntTextLost⟩

theorem offerAll_cons (c : Call) (tstamp : ℕ → BitVec 32) (alloc : ℕ → Bool) (i : ℕ) (f : File)
    (fs : List File) (cnt : BitVec 32) : offerAll c tstamp alloc i (f :: fs) cnt =
      let p := f.offer (c.event (tstamp i)) (alloc i) cnt
      let q := offerAll c tstamp alloc (i + 1) fs p.2
      (p.1 :: q.1, q.2) := rfl

theorem sound_offerAll {log : List Event} (c : Call) (tstamp : ℕ → BitVec 32)
    (alloc : ℕ → Bool) :
    ∀ (i : ℕ) (fs : List File) (cnt : BitVec 32), (∀ f ∈ fs, f.Sound log) →
      (∀ f ∈ (offerAll c tstamp alloc i fs cnt).1, f.Sound (log ++ [c.event 0]))
        ∧ (offerAll c tstamp alloc i fs cnt).1.map File.fd = fs.map File.fd
        ∧ ∀ k, cnt = BitVec.ofNat 32 (k + (fs.map File.lost).sum) →
          (offerAll c tstamp alloc i fs cnt).2
            = BitVec.ofNat 32 (k + ((offerAll c tstamp alloc i fs cnt).1.map File.lost).sum)
  | _, [], _, _ => ⟨fun _ hf => absurd hf List.not_mem_nil, rfl, fun _ hcnt => hcnt⟩
  | i, f :: fs, cnt, h => by
    have hfirst := sound_offer (h f List.mem_cons_self) (c.event (tstamp i)) (alloc i) cnt
    rw [offerAll_cons]
    generalize f.offer (c.event (tstamp i)) (alloc i) cnt = p at hfirst
    obtain ⟨hf, hlost, hfd⟩ := hfirst
    obtain ⟨hfs, hfds, hlosts⟩ := sound_offerAll c tstamp alloc (i + 1) fs p.2 fun f' hf' =>
      h f' (List.mem_cons_of_mem f hf')
    dsimp only
    refine ⟨fun f' hf' => ?_, ?_, fun k hcnt => ?_⟩
    · rcases List.mem_cons.1 hf' with rfl | hf'
      · exact hf
      · exact hfs f' hf'
    · rw [List.map_cons, List.map_cons, hfd, hfds]
    · -- to this file the others are those behind it, to them it is one of the others
      rw [List.map_cons, List.sum_cons, Nat.add_left_comm, Nat.add_comm] at hcnt
      rw [List.map_cons, List.sum_cons, ← Nat.add_assoc]
      refine hlosts _ ((hlost _ hcnt).trans ?_)
      rw [Nat.add_right_comm]

theorem sound_bus (h : Sound s) (c : Call) (tstamp : ℕ → BitVec 32) (alloc : ℕ → Bool) :
    Sound (s.monBus c tstamp alloc) := by
  unfold St.monBus
  split_ifs with hn
  · have hnil : s.rList = [] := List.length_eq_zero_iff.1 (h.nreaders.symm.trans hn)
    refine ⟨fun f hf => ?_, h.fds, h.nreaders, h.cntTextLost⟩
    exact absurd (hnil ▸ hf : f ∈ []) List.not_mem_nil
  · obtain ⟨hfiles, hfds, hlost⟩ := sound_offerAll c tstamp alloc 0 s.rList s.cntTextLost h.files
    refine ⟨hfiles, hfds ▸ h.fds, ?_, hlost _ h.cntTextLost⟩
    rw [h.nreaders, ← List.length_map File.fd, ← hfds, List.length_map]

theorem sound_open (h : Sound s) {fd : ℕ} (hnew : ∀ f ∈ s.rList, f.fd ≠ fd) :
    Sound (s.monTextOpen fd) := by
  refine ⟨fun f hf => ?_, ?_, ?_, ?_⟩
  · rcases List.mem_append.1 hf with hf | hf
    · exact h.files f hf
    · rw [List.mem_singleton.1 hf]
      exact sound_new fd s.log
  · change ((s.rList ++ [File.new fd s.log.length]).map File.fd).Nodup
    rw [List.map_append]
    refine List.nodup_append_comm.1 (List.nodup_cons.2 ⟨fun hmem => ?_, h.fds⟩)
    obtain ⟨f, hf, heq⟩ := List.mem_map.1 hmem
    exact hnew f hf heq
  · change s.nreaders + 1 = (s.rList ++ [_]).length
    rw [h.nreaders, List.length_append]
    rfl
  · change s.cntTextLost = BitVec.ofNat 32
      (s.closedLost + ((s.rList ++ [File.new fd s.log.length]).map File.lost).sum)
    rw [h.cntTextLost, List.map_append, List.sum_append]
    rfl

theorem sound_release (h : Sound s) {f : File} (hf : f ∈ s.rList) : Sound (s.monTextRelease f) := by
  have hne : s.nreaders ≠ 0 := fun hz =>
    List.ne_nil_of_mem hf (List.length_eq_zero_iff.1 (h.nreaders.symm.trans hz))
  have hperm : (f :: s.rList.filter fun f' => f'.fd ≠ f.fd).Perm s.rList := by
    have hkey : s.rList.filter (fun f' => f'.fd = f.fd) = [f] := List.filter_key h.fds hf
    have happ := List.filter_append_perm (fun f' : File => decide (f'.fd = f.fd)) s.rList
    rw [hkey] at happ
    simpa using happ
  have hsub : (s.rList.filter fun f' => f'.fd ≠ f.fd).Sublist s.rList := List.filter_sublist
  have hsum : f.lost + ((s.rList.filter fun f' => f'.fd ≠ f.fd).map File.lost).sum
      = (s.rList.map File.lost).sum := by
    rw [← (hperm.map File.lost).sum_nat, List.map_cons, List.sum_cons]
  rw [St.monTextRelease, if_neg hne]
  refine ⟨fun f' hf' => h.files f' (hsub.subset hf'), h.fds.sublist (hsub.map _), ?_, ?_⟩
  · change s.nreaders - 1 = (s.rList.filter fun f' => f'.fd ≠ f.fd).length
    rw [h.nreaders, ← hperm.length_eq, List.length_cons, Nat.add_sub_cancel]
  · change s.cntTextLost = BitVec.ofNat 32
      (s.closedLost + f.lost + ((s.rList.filter fun f' => f'.fd ≠ f.fd).map File.lost).sum)
    rw [h.cntTextLost, Nat.add_assoc, hsum]

theorem sound_map_read (h : Sound s) {fd nbytes : ℕ} {fault : Bool}
    (hpos : fault = true → 0 < nbytes) :
    Sound { s with
      rList := s.rList.map fun f => if f.fd = fd then f.read nbytes fault else f } := by
  have hmap : ∀ {α : Type} (g : File → α), (∀ f : File, g (f.read nbytes fault) = g f) →
      (s.rList.map fun f => if f.fd = fd then f.read nbytes fault else f).map g
        = s.rList.map g := by
    intro α g hg
    rw [List.map_map]
    refine List.map_congr_left fun f _ => ?_
    change g (if f.fd = fd then f.read nbytes fault else f) = g f
    split_ifs
    · exact hg f
    · rfl
  refine ⟨fun f hf => ?_, ?_, ?_, ?_⟩
  · obtain ⟨f', hf', rfl⟩ := List.mem_map.1 hf
    split_ifs
    · exact sound_read (h.files f' hf') hpos
    · exact h.files f' hf'
  · exact (hmap File.fd fun f => (read_frame f nbytes fault).1).symm ▸ h.fds
  · exact h.nreaders.trans (List.length_map _).symm
  · exact (hmap File.lost fun f => (read_frame f nbytes fault).2).symm ▸ h.cntTextLost

theorem sound_step {i : Input} (h : Sound s) (hs : step s i = some s') : Sound s' := by
  cases i with
  | bus c tstamp alloc =>
    cases hs
    exact sound_bus h c tstamp alloc
  | openFile fd =>
    obtain ⟨hnew, hs⟩ := Option.ite_none_right_eq_some.1 hs
    cases hs
    exact sound_open h hnew
  | release fd =>
    obtain ⟨f, hfind, hs⟩ := Option.map_eq_some_iff.1 hs
    cases hs
    exact sound_release h (List.mem_of_find?_eq_some hfind)
  | read fd nbytes fault =>
    obtain ⟨⟨-, hpos⟩, hs⟩ := Option.ite_none_right_eq_some.1 hs
    cases hs
    exact sound_map_read h hpos

theorem sound_initial : Sound initial :=
  ⟨fun _ hf => absurd hf List.not_mem_nil, List.nodup_nil, rfl, rfl⟩

/-- Whatever is queued, received and completed on the bus, and however files are opened, read and
closed, in any order. -/
theorem monitor_run {is : List Input} (hrun : Runs.exec step initial is = some s) : Right s :=
  (Runs.exec_keeps (I := Sound) (fun _ _ _ h hs => sound_step h hs) sound_initial hrun).right

def ping : Call :=
  ⟨.submit, 20, 0xfff00010, 0x80001000, 0x5c, 0x2, List.replicate 40 0xa5⟩

/-- A packet is queued while a file is open, and its line is read in parts. There is no memory for
the completion, and of the next packet the first part of the line goes nowhere. -/
def submitAndComplete : List Input :=
  [.openFile 3, .bus ping (fun _ => 17) (fun _ => true), .read 3 20 false,
    .bus { ping with type := .complete } (fun _ => 42) (fun _ => false), .openFile 4,
    .bus ping (fun i => BitVec.ofNat 32 (50 + i)) (fun _ => true), .read 3 200 false,
    .read 3 10 true, .release 4]

theorem monitor_run_submitAndComplete : ∃ s f, Runs.exec step initial submitAndComplete = some s
    ∧ s.rList = [f] ∧ f.lost = 1 ∧ f.failed = true ∧ f.shown ≠ textOf f.kept := by
  have hrun : Runs.exec step initial submitAndComplete = some _ := rfl
  have hright := monitor_run hrun
  exact ⟨_, _, hrun, rfl, rfl, rfl, (hright.files _ List.mem_cons_self).missing rfl⟩

end Runs

end MhiMon

end BananaWrt
