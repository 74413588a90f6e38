import Mathlib.Data.List.Basic
import JsonShape.Document.Gzip

/-!
# What a compressed file delivers

Reading a compressed file goes pass by pass, and how the passes divide its content has nothing to do
with the members. What a file holds is told by the members alone : `Holds` says that it is a row of
whole members with that content, and `CorruptFrom` that after whole members comes one whose deflate
stream is corrupt.

What one pass can do is said once (`Passes`, `passes_turn`). Both relations are carried from a file
to the places inside it, every pass keeps them, and so does the whole run : a file delivers all of
its content exactly if it holds it (`deliver_of_holds`, `exists_holds_of_deliver`), and reading it
fails at a corrupt stream exactly if there is one (`deliver_fault_iff`).
-/

namespace JsonShape.Gzip

variable {bytes content : List UInt8} {p : Place} {b : Buffer} {cause : Deflate.Corruption}

/-! ## Members -/

/-- The file is a row of whole members with that content. -/
inductive Holds : List UInt8 → List UInt8 → Prop
  | nil : Holds [] []
  | member {bytes body rest content : List UInt8} (hheader : skipHeader bytes = .ok body)
    (hwhole : (Deflate.inflate body).stop = none)
    (htrailer : checkTrailer (Deflate.inflate body).output (Deflate.inflate body).rest = .ok rest)
    (hnext : Holds (rest.dropWhile (· == 0)) content) :
    Holds bytes ((Deflate.inflate body).output ++ content)

/-- Whole members lead from the first place in a file to the second. -/
inductive Reaches : List UInt8 → List UInt8 → Prop
  | here (bytes : List UInt8) : Reaches bytes bytes
  | member {bytes body rest last : List UInt8} (hheader : skipHeader bytes = .ok body)
    (hwhole : (Deflate.inflate body).stop = none)
    (htrailer : checkTrailer (Deflate.inflate body).output (Deflate.inflate body).rest = .ok rest)
    (hnext : Reaches (rest.dropWhile (· == 0)) last) : Reaches bytes last

/-- A member whose deflate stream is corrupt starts here. -/
def CorruptAt (bytes : List UInt8) (cause : Deflate.Corruption) : Prop :=
  ∃ body, skipHeader bytes = .ok body ∧ (Deflate.inflate body).stop = some (.corrupt cause)

/-- After whole members comes a member whose deflate stream is corrupt. -/
def CorruptFrom (bytes : List UInt8) (cause : Deflate.Corruption) : Prop :=
  ∃ last, Reaches bytes last ∧ CorruptAt last cause

/-! ## Places -/

/-- The rest of the file is whole, with that content. -/
def Place.Holds (content : List UInt8) : Place → Prop
  | .between bytes => Gzip.Holds bytes content
  | .inside x pending _ => x.stop = none ∧ ∃ rest more,
    checkTrailer x.output x.rest = .ok rest ∧ Gzip.Holds (rest.dropWhile (· == 0)) more ∧
      content = pending.map Deflate.Emission.byte ++ more
  | .behind output bytes => ∃ rest, checkTrailer output bytes = .ok rest ∧
    Gzip.Holds (rest.dropWhile (· == 0)) content

/-- The stream that is read is corrupt, or one after whole members is. -/
def Place.CorruptFrom (cause : Deflate.Corruption) : Place → Prop
  | .between bytes => Gzip.CorruptFrom bytes cause
  | .inside x _ _ => x.stop = some (.corrupt cause) ∨ x.stop = none ∧ ∃ rest,
    checkTrailer x.output x.rest = .ok rest ∧ Gzip.CorruptFrom (rest.dropWhile (· == 0)) cause
  | .behind output bytes => ∃ rest, checkTrailer output bytes = .ok rest ∧
    Gzip.CorruptFrom (rest.dropWhile (· == 0)) cause

/-- Behind the header of a member a whole file goes on with its stream. -/
theorem holds_iff_of_header {body : List UInt8} (hheader : skipHeader bytes = .ok body) :
    Holds bytes content ↔ (Place.inside (Deflate.inflate body) (Deflate.inflate body).emitted
      body.length).Holds content := by
  constructor
  · rintro (_ | ⟨hheader', hwhole, htrailer, hnext⟩)
    · cases hheader
    · cases hheader.symm.trans hheader'
      exact ⟨hwhole, _, _, htrailer, hnext, rfl⟩
  · rintro ⟨hwhole, rest, more, htrailer, hnext, rfl⟩
    exact .member hheader hwhole htrailer hnext

/-- The corrupt stream is the one behind the header, or it comes after it. -/
theorem corruptFrom_iff_of_header {body : List UInt8} (hheader : skipHeader bytes = .ok body) :
    CorruptFrom bytes cause ↔ (Place.inside (Deflate.inflate body) (Deflate.inflate body).emitted
      body.length).CorruptFrom cause := by
  constructor
  · rintro ⟨last, hreach, body', hbody, hstop⟩
    cases hreach with
    | here =>
      cases hheader.symm.trans hbody
      exact .inl hstop
    | member hheader' hwhole htrailer hnext =>
      cases hheader.symm.trans hheader'
      exact .inr ⟨hwhole, _, htrailer, last, hnext, body', hbody, hstop⟩
  · rintro (hstop | ⟨hwhole, rest, htrailer, last, hnext, hcorrupt⟩)
    · exact ⟨bytes, .here bytes, body, hheader, hstop⟩
    · exact ⟨last, .member hheader hwhole htrailer hnext, hcorrupt⟩

theorem skipHeader_of_corruptFrom (h : CorruptFrom bytes cause) :
    ∃ body, skipHeader bytes = .ok body := by
  obtain ⟨last, hreach, body, hbody, -⟩ := h
  cases hreach with
  | here => exact ⟨body, hbody⟩
  | member hheader => exact ⟨_, hheader⟩

/-! ## One pass -/

/-- What a pass can come to. -/
inductive Passes : Place → Turn → Prop
  | finished : Passes (.between []) .finished
  | header {bytes body : List UInt8} (hheader : skipHeader bytes = .ok body) :
    Passes (.between bytes)
      (.gave [] (.inside (Deflate.inflate body) (Deflate.inflate body).emitted body.length))
  | badHeader {bytes : List UInt8} {fault : Fault} (hne : bytes ≠ [])
    (hheader : skipHeader bytes = .error fault) : Passes (.between bytes) (.failed fault)
  | part {x : Deflate.Expansion} {given later : List Deflate.Emission} (left left' : Nat) :
    Passes (.inside x (given ++ later) left)
      (.gave (given.map Deflate.Emission.byte) (.inside x later left'))
  | streamEnd {x : Deflate.Expansion} {pending : List Deflate.Emission} (left : Nat)
    (hstop : x.stop = none) : Passes (.inside x pending left)
      (.gave (pending.map Deflate.Emission.byte) (.behind x.output x.rest))
  | truncated {x : Deflate.Expansion} {pending : List Deflate.Emission} (left : Nat)
    (hstop : x.stop = some .truncated) : Passes (.inside x pending left) (.failed .endedEarly)
  | corrupt {x : Deflate.Expansion} {pending : List Deflate.Emission} (left : Nat)
    {cause : Deflate.Corruption} (hstop : x.stop = some (.corrupt cause)) :
    Passes (.inside x pending left) (.failed (.corruptStream cause))
  | trailer {output bytes rest : List UInt8} (htrailer : checkTrailer output bytes = .ok rest) :
    Passes (.behind output bytes) (.gave [] (.between (rest.dropWhile (· == 0))))
  | badTrailer {output bytes : List UInt8} {fault : Fault}
    (htrailer : checkTrailer output bytes = .error fault) :
    Passes (.behind output bytes) (.failed fault)

section

variable {x : Deflate.Expansion} {pending given : List Deflate.Emission} {left room : Nat}

theorem passes_resume (hgiven : given <+: pending)
    (hend : given = [] → left = 0 → x.stop = some .truncated) :
    Passes (.inside x pending left) (resume x pending given left) := by
  obtain ⟨later, rfl⟩ := hgiven
  unfold resume
  cases given with
  | nil =>
    simp only [List.isEmpty_nil, if_pos, List.nil_append]
    split
    next hleft => exact .truncated left (hend rfl hleft)
    next => exact @Passes.part x [] later left _
  | cons e given =>
    simp only [List.isEmpty_cons, Bool.false_eq_true, if_false, List.drop_left]
    exact .part left _

/-- Where the whole file is taken in and there is room, something of the expansion is given. -/
theorem eq_nil_of_ready_zero (hroom : 0 < room) (h : ready room 0 pending = []) : pending = [] := by
  cases pending with
  | nil => rfl
  | cons e pending =>
    obtain ⟨room, rfl⟩ := Nat.exists_eq_add_one.2 hroom
    simp [ready] at h

theorem passes_streamTurn (hroom : 0 < room) :
    Passes (.inside x pending left) (streamTurn room x pending left) := by
  have hgiven := ready_prefix room (left - chunkSize) pending
  have hpending : left = 0 → ready room (left - chunkSize) pending = [] → pending = [] := by
    rintro rfl h
    exact eq_nil_of_ready_zero hroom (by simpa using h)
  unfold streamTurn
  simp only
  split
  next hbefore =>
    refine passes_resume hgiven fun hnil hleft => ?_
    rw [hnil, hpending hleft hnil, hleft] at hbefore
    simp at hbefore
  next hend =>
    have hall : ready room (left - chunkSize) pending = pending :=
      hgiven.eq_of_length_le (by omega)
    split
    next hstop =>
      rw [hall]
      exact .streamEnd left hstop
    next hstop => exact passes_resume hgiven fun _ _ => hstop
    next cause hstop =>
      split
      next hfar =>
        refine passes_resume hgiven fun hnil _ => ?_
        rw [hnil] at hfar
        exact absurd hfar.2 (Nat.ne_of_lt hroom)
      next => exact .corrupt left hstop

end

theorem passes_turn {room : Nat} (hroom : 0 < room) (p : Place) : Passes p (p.turn room) := by
  cases p with
  | between bytes =>
    rw [Place.turn]
    split
    next hempty =>
      obtain rfl := List.isEmpty_iff.1 hempty
      exact .finished
    next hne =>
      split
      next hheader => exact .badHeader (mt List.isEmpty_iff.2 hne) hheader
      next hheader => exact .header hheader
  | inside x pending left => exact passes_streamTurn hroom
  | behind output bytes =>
    rw [Place.turn]
    split
    next htrailer => exact .badTrailer htrailer
    next htrailer => exact .trailer htrailer

/-- What is given is the next part of the content. -/
theorem Passes.holds_iff {output : List UInt8} {next : Place} (h : Passes p (.gave output next)) :
    p.Holds content ↔ ∃ more, next.Holds more ∧ content = output ++ more := by
  cases h with
  | header hheader =>
    rw [Place.Holds, holds_iff_of_header hheader]
    simp only [List.nil_append, exists_eq_right']
  | part =>
    constructor
    · rintro ⟨hstop, rest, more, htrailer, hnext, rfl⟩
      exact ⟨_, ⟨hstop, rest, more, htrailer, hnext, rfl⟩, by simp⟩
    · rintro ⟨_, ⟨hstop, rest, more, htrailer, hnext, rfl⟩, rfl⟩
      exact ⟨hstop, rest, more, htrailer, hnext, by simp⟩
  | streamEnd _ hstop =>
    constructor
    · rintro ⟨-, rest, more, htrailer, hnext, rfl⟩
      exact ⟨more, ⟨rest, htrailer, hnext⟩, rfl⟩
    · rintro ⟨more, ⟨rest, htrailer, hnext⟩, rfl⟩
      exact ⟨hstop, rest, more, htrailer, hnext, rfl⟩
  | trailer htrailer => simp [Place.Holds, htrailer]

/-- A pass comes no closer to a corrupt stream, and does not pass it. -/
theorem Passes.corruptFrom_iff {output : List UInt8} {next : Place}
    (h : Passes p (.gave output next)) : p.CorruptFrom cause ↔ next.CorruptFrom cause := by
  cases h with
  | header hheader => exact corruptFrom_iff_of_header hheader
  | part => rfl
  | streamEnd _ hstop => simp [Place.CorruptFrom, hstop]
  | trailer htrailer => simp [Place.CorruptFrom, htrailer]

theorem Passes.holds_of_finished (h : Passes p .finished) : p.Holds content ↔ content = [] := by
  cases h
  constructor
  · rintro (_ | ⟨⟨⟩⟩)
    rfl
  · rintro rfl
    exact .nil

theorem Passes.not_corruptFrom_of_finished (h : Passes p .finished) : ¬ p.CorruptFrom cause := by
  cases h
  intro hcorrupt
  obtain ⟨_, ⟨⟩⟩ := skipHeader_of_corruptFrom hcorrupt

theorem Passes.not_holds_of_failed {fault : Fault} (h : Passes p (.failed fault)) :
    ¬ p.Holds content := by
  cases h with
  | badHeader hne hheader =>
    rintro (_ | ⟨hheader', -⟩)
    · exact hne rfl
    · cases hheader.symm.trans hheader'
  | truncated _ hstop =>
    rintro ⟨hwhole, -⟩
    cases hstop.symm.trans hwhole
  | corrupt _ hstop =>
    rintro ⟨hwhole, -⟩
    cases hstop.symm.trans hwhole
  | badTrailer htrailer =>
    rintro ⟨rest, hrest, -⟩
    cases htrailer.symm.trans hrest

/-- A pass fails for a corrupt stream exactly if there is one. -/
theorem Passes.corruptFrom_of_failed {fault : Fault} (h : Passes p (.failed fault)) :
    p.CorruptFrom cause ↔ fault = .corruptStream cause := by
  cases h with
  | @badHeader bytes _ hne hheader =>
    have hfault := framed_skipHeader bytes
    rw [hheader] at hfault
    refine iff_of_false (fun hcorrupt => ?_) (hfault cause)
    obtain ⟨_, hbody⟩ := skipHeader_of_corruptFrom hcorrupt
    cases hheader.symm.trans hbody
  | truncated _ hstop => simp [Place.CorruptFrom, hstop]
  | corrupt _ hstop => simp [Place.CorruptFrom, hstop, eq_comm]
  | @badTrailer output bytes _ htrailer =>
    have hfault := framed_checkTrailer output bytes
    rw [htrailer] at hfault
    refine iff_of_false ?_ (hfault cause)
    rintro ⟨rest, hrest, -⟩
    cases htrailer.symm.trans hrest

/-! ## A whole run -/

/-- The buffer has room for what the block lacks. -/
def Buffer.Fits (b : Buffer) : Prop :=
  b.filled = 0 ∨ 0 < b.lacking ∧ b.filled + b.lacking ≤ bufferSize

theorem Buffer.Fits.room_pos (hb : b.Fits) : 0 < b.room := by
  unfold room
  split
  next hlarge =>
    have hone : 0 < b.lacking / bufferSize := Nat.div_pos hlarge (by decide)
    exact Nat.mul_pos hone (by decide)
  next =>
    unfold Fits at hb
    unfold bufferSize at hb ⊢
    omega

theorem Buffer.Fits.add (hb : b.Fits) (output : List UInt8) : (b.add output).Fits := by
  unfold Buffer.add
  split
  next => exact .inl rfl
  next hshort =>
    unfold Fits lacking at *
    simp only [List.length_append]
    split
    next => exact .inl rfl
    next => right; omega

/-- Nothing that is read is lost, and nothing is read twice. -/
theorem Buffer.append_add (b : Buffer) (output : List UInt8) :
    (b.add output).delivered ++ (b.add output).current = b.delivered ++ b.current ++ output := by
  unfold Buffer.add
  split
  next => simp
  next => simp

section

variable {output : List UInt8} {next : Place} {fault : Fault}

theorem readOn_of_gave (h : p.turn b.room = .gave output next) :
    readOn b p = readOn (b.add output) next := by
  rw [readOn]
  split <;> simp_all

theorem readOn_of_failed (h : p.turn b.room = .failed fault) :
    readOn b p = ⟨b.delivered, some fault⟩ := by
  rw [readOn]
  split <;> simp_all

end

theorem readOn_of_holds (hb : b.Fits) (h : p.Holds content) :
    readOn b p = ⟨b.delivered ++ b.current ++ content, none⟩ := by
  fun_induction readOn b p generalizing content with
  | case1 b p hturn =>
    have hpass := hturn ▸ passes_turn hb.room_pos p
    rw [hpass.holds_of_finished.1 h, List.append_nil]
  | case2 b p fault hturn =>
    have hpass := hturn ▸ passes_turn hb.room_pos p
    exact absurd h hpass.not_holds_of_failed
  | case3 b p output next hturn ih =>
    have hpass := hturn ▸ passes_turn hb.room_pos p
    obtain ⟨more, hmore, rfl⟩ := hpass.holds_iff.1 h
    rw [ih (hb.add output) hmore, Buffer.append_add, List.append_assoc]

theorem exists_holds_of_readOn (hb : b.Fits) (h : (readOn b p).fault = none) :
    ∃ content, p.Holds content := by
  fun_induction readOn b p with
  | case1 b p hturn =>
    have hpass := hturn ▸ passes_turn hb.room_pos p
    exact ⟨[], hpass.holds_of_finished.2 rfl⟩
  | case2 => cases h
  | case3 b p output next hturn ih =>
    have hpass := hturn ▸ passes_turn hb.room_pos p
    obtain ⟨more, hmore⟩ := ih (hb.add output) h
    exact ⟨_, hpass.holds_iff.2 ⟨more, hmore, rfl⟩⟩

theorem readOn_fault_iff (hb : b.Fits) :
    (readOn b p).fault = some (.corruptStream cause) ↔ p.CorruptFrom cause := by
  fun_induction readOn b p with
  | case1 b p hturn =>
    have hpass := hturn ▸ passes_turn hb.room_pos p
    exact iff_of_false (by simp) hpass.not_corruptFrom_of_finished
  | case2 b p fault hturn =>
    have hpass := hturn ▸ passes_turn hb.room_pos p
    rw [hpass.corruptFrom_of_failed, Option.some.injEq]
  | case3 b p output next hturn ih =>
    have hpass := hturn ▸ passes_turn hb.room_pos p
    rw [ih (hb.add output), hpass.corruptFrom_iff]

/-- A whole file delivers its content. -/
theorem deliver_of_holds (h : Holds bytes content) : deliver bytes = ⟨content, none⟩ :=
  readOn_of_holds (p := .between bytes) (.inl rfl) h

theorem exists_holds_of_deliver (h : (deliver bytes).fault = none) :
    ∃ content, Holds bytes content :=
  exists_holds_of_readOn (p := .between bytes) (.inl rfl) h

/-- A corrupt stream ends a file exactly if whole members lead to it. -/
theorem deliver_fault_iff :
    (deliver bytes).fault = some (.corruptStream cause) ↔ CorruptFrom bytes cause :=
  readOn_fault_iff (p := .between bytes) (.inl rfl)

end JsonShape.Gzip
