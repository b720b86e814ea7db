import TwinShell.Viewer.Frame

/-!
# Frames on a stream

Reading and writing frames are inverse to each other. A message that is not too long is read back from its frame, whatever follows; and a stream from which a message is read starts with the frame of that message. Both are about one call of `read`, which has three outcomes: a message, the end of the stream, which is an incomplete header, and a stream that is broken. `Yields` follows the calls one after the other, and what a single call does carries over to the whole stream.
-/

namespace TwinShell.Frame

variable {stream payload rest left : List UInt8} {payloads : List (List UInt8)} {e : Error}

/-! ### Headers -/

/-- The number that four bytes make up, least significant first. -/
def unsignedLength (a b c d : UInt8) : Nat :=
  a.toNat + 0x100 * b.toNat + 0x10000 * c.toNat + 0x1000000 * d.toNat

/-- The length in a header: its four bytes as a signed number of 32 bits. -/
def signedLength (a b c d : UInt8) : Int := Int.bmod (unsignedLength a b c d) 0x100000000

theorem length_header (n : Nat) : (header n).length = 4 := rfl

theorem unsignedLength_lt (a b c d : UInt8) : unsignedLength a b c d < 0x100000000 := by
  have ha := a.toNat_lt
  have hb := b.toNat_lt
  have hc := c.toNat_lt
  have hd := d.toNat_lt
  unfold unsignedLength
  omega

theorem signedLength_of_lt {a b c d : UInt8} (h : unsignedLength a b c d < 0x80000000) :
    signedLength a b c d = unsignedLength a b c d := by
  unfold signedLength
  rw [Int.bmod_def]
  omega

theorem signedLength_neg {a b c d : UInt8} (h : 0x80000000 ≤ unsignedLength a b c d) :
    signedLength a b c d < 0 := by
  have hlt := unsignedLength_lt a b c d
  unfold signedLength
  rw [Int.bmod_def]
  omega

theorem unsignedLength_header {n : Nat} (h : n < 0x100000000) :
    unsignedLength n.toUInt8 (n / 0x100).toUInt8 (n / 0x10000).toUInt8 (n / 0x1000000).toUInt8 = n := by
  simp only [unsignedLength, UInt8.toNat_ofNat', Nat.toUInt8_eq]
  omega

theorem header_unsignedLength (a b c d : UInt8) : header (unsignedLength a b c d) = [a, b, c, d] := by
  have ha := a.toNat_lt
  have hb := b.toNat_lt
  have hc := c.toNat_lt
  have hd := d.toNat_lt
  simp only [header, unsignedLength, List.cons.injEq, ← UInt8.toNat_inj, Nat.toUInt8_eq,
    UInt8.toNat_ofNat']
  refine ⟨?_, ?_, ?_, ?_, trivial⟩ <;> omega

/-! ### One call -/

/-- A stream with a whole header that no message can be read from, and why. -/
inductive Breaks : List UInt8 → Error → Prop
  | negative {a b c d : UInt8} {rest : List UInt8} (h : signedLength a b c d < 0) :
    Breaks (a :: b :: c :: d :: rest) .negativeLength
  | tooLong {a b c d : UInt8} {rest : List UInt8} {length : Nat}
    (hlength : signedLength a b c d = length) (h : maxLength < length) :
    Breaks (a :: b :: c :: d :: rest) (.tooLong length)
  | truncated {a b c d : UInt8} {rest : List UInt8} {length : Nat}
    (hlength : signedLength a b c d = length) (hmax : length ≤ maxLength) (h : rest.length < length) :
    Breaks (a :: b :: c :: d :: rest) .truncated

theorem read_cons (a b c d : UInt8) (rest : List UInt8) : read (a :: b :: c :: d :: rest) =
    if 0x80000000 ≤ unsignedLength a b c d then .error .negativeLength
    else if maxLength < unsignedLength a b c d then .error (.tooLong (unsignedLength a b c d))
    else if rest.length < unsignedLength a b c d then .error .truncated
    else .ok (some (rest.take (unsignedLength a b c d), rest.drop (unsignedLength a b c d))) :=
  rfl

theorem encode?_of_le (h : payload.length ≤ maxLength) :
    encode? payload = some (header payload.length ++ payload) := by
  refine if_pos ?_
  unfold maxLength at h
  omega

/-- A message is read back from its frame. -/
theorem read_frame (h : payload.length ≤ maxLength) (rest : List UInt8) :
    read (header payload.length ++ payload ++ rest) = .ok (some (payload, rest)) := by
  have hmax : payload.length < 0x80000000 := by
    unfold maxLength at h
    omega
  have hlength := unsignedLength_header (n := payload.length) (by omega)
  rw [List.append_assoc]
  refine (read_cons _ _ _ _ (payload ++ rest)).trans ?_
  rw [hlength, if_neg (by omega), if_neg (by omega), if_neg (by simp), List.take_left, List.drop_left]

/-- What one call does with a stream, in each of the three cases. -/
theorem read_cases (stream : List UInt8) :
    (read stream = .ok none ∧ stream.length < 4) ∨
    (∃ e, read stream = .error e ∧ Breaks stream e) ∨
    ∃ payload rest, read stream = .ok (some (payload, rest)) ∧ payload.length ≤ maxLength ∧
      stream = header payload.length ++ payload ++ rest := by
  match stream with
  | [] | [_] | [_, _] | [_, _, _] => exact .inl ⟨rfl, by simp⟩
  | a :: b :: c :: d :: rest =>
    refine .inr ?_
    rw [read_cons]
    by_cases hnegative : 0x80000000 ≤ unsignedLength a b c d
    · rw [if_pos hnegative]
      exact .inl ⟨_, rfl, .negative (signedLength_neg hnegative)⟩
    rw [if_neg hnegative]
    have hsigned := signedLength_of_lt (Nat.lt_of_not_le hnegative)
    by_cases hlong : maxLength < unsignedLength a b c d
    · rw [if_pos hlong]
      exact .inl ⟨_, rfl, .tooLong hsigned hlong⟩
    rw [if_neg hlong]
    have hmax := Nat.le_of_not_lt hlong
    by_cases hshort : rest.length < unsignedLength a b c d
    · rw [if_pos hshort]
      exact .inl ⟨_, rfl, .truncated hsigned hmax hshort⟩
    rw [if_neg hshort]
    have hlength : (rest.take (unsignedLength a b c d)).length = unsignedLength a b c d :=
      List.length_take_of_le (Nat.le_of_not_lt hshort)
    refine .inr ⟨_, _, rfl, ?_, ?_⟩
    · rw [hlength]
      exact hmax
    · rw [hlength, header_unsignedLength, List.append_assoc, List.take_append_drop]
      rfl

theorem of_read_eq_some (h : read stream = .ok (some (payload, rest))) :
    payload.length ≤ maxLength ∧ stream = header payload.length ++ payload ++ rest := by
  obtain ⟨hread, -⟩ | ⟨e, hread, -⟩ | ⟨payload', rest', hread, hframe⟩ := read_cases stream
  · cases hread.symm.trans h
  · cases hread.symm.trans h
  · cases hread.symm.trans h
    exact hframe

theorem length_lt_of_read_eq_none (h : read stream = .ok none) : stream.length < 4 := by
  obtain ⟨-, hlength⟩ | ⟨e, hread, -⟩ | ⟨payload', rest', hread, -⟩ := read_cases stream
  · exact hlength
  · cases hread.symm.trans h
  · cases hread.symm.trans h

theorem breaks_of_read_eq_error (h : read stream = .error e) : Breaks stream e := by
  obtain ⟨hread, -⟩ | ⟨e', hread, hbreaks⟩ | ⟨payload', rest', hread, -⟩ := read_cases stream
  · cases hread.symm.trans h
  · cases hread.symm.trans h
    exact hbreaks
  · cases hread.symm.trans h

/-! ### Calls one after the other -/

/-- Calls of `read`, one after the other, give `payloads` and leave `left` of the stream. -/
inductive Yields : List UInt8 → List (List UInt8) → List UInt8 → Prop
  | nil (stream : List UInt8) : Yields stream [] stream
  | cons {stream payload rest left : List UInt8} {payloads : List (List UInt8)}
    (h : read stream = .ok (some (payload, rest))) (hrest : Yields rest payloads left) :
    Yields stream (payload :: payloads) left

/-- The bytes of the frames of messages. -/
def wire (payloads : List (List UInt8)) : List UInt8 :=
  payloads.flatMap fun payload => header payload.length ++ payload

theorem encode_all (h : ∀ payload ∈ payloads, payload.length ≤ maxLength) :
    ∃ frames, payloads.mapM encode? = some frames ∧ frames.flatten = wire payloads := by
  induction payloads with
  | nil => exact ⟨[], rfl, rfl⟩
  | cons payload payloads ih =>
    obtain ⟨hpayload, hrest⟩ := List.forall_mem_cons.1 h
    obtain ⟨frames, hframes, hwire⟩ := ih hrest
    refine ⟨(header payload.length ++ payload) :: frames, ?_, ?_⟩
    · simp [List.mapM_cons, encode?_of_le hpayload, hframes]
    · simp only [List.flatten_cons, hwire, wire, List.flatMap_cons]

theorem Yields.of_wire (h : ∀ payload ∈ payloads, payload.length ≤ maxLength) (left : List UInt8) :
    Yields (wire payloads ++ left) payloads left := by
  induction payloads with
  | nil => exact .nil left
  | cons payload payloads ih =>
    obtain ⟨hpayload, hrest⟩ := List.forall_mem_cons.1 h
    refine .cons ?_ (ih hrest)
    rw [wire, List.flatMap_cons, List.append_assoc]
    exact read_frame hpayload _

theorem Yields.stream_eq (h : Yields stream payloads left) :
    (∀ payload ∈ payloads, payload.length ≤ maxLength) ∧ stream = wire payloads ++ left := by
  induction h with
  | nil stream => exact ⟨nofun, rfl⟩
  | cons hread _ ih =>
    obtain ⟨hmax, rfl⟩ := of_read_eq_some hread
    refine ⟨List.forall_mem_cons.2 ⟨hmax, ih.1⟩, ?_⟩
    rw [ih.2, wire, wire, List.flatMap_cons, List.append_assoc, List.append_assoc, List.append_assoc]

/-- Every message takes up its header at least, so only so many calls give one. -/
theorem Yields.length_le (h : Yields stream payloads left) : 4 * payloads.length ≤ stream.length := by
  induction h with
  | nil stream => exact Nat.zero_le _
  | cons hread _ ih =>
    have hlength := congrArg List.length (of_read_eq_some hread).2
    simp only [List.length_append, length_header] at hlength
    rw [List.length_cons]
    omega

/-- What the loop gives when the calls come to an end at `left`. -/
theorem Yields.readAll_eq (h : Yields stream payloads left) {error : Option Error}
    (hleft : readAll left = ([], left, error)) : readAll stream = (payloads, left, error) := by
  induction h with
  | nil stream => exact hleft
  | cons hread _ ih =>
    rw [readAll]
    split
    · rename_i payload' rest' hread'
      cases hread'.symm.trans hread
      rw [ih hleft]
    · rename_i hread'
      cases hread'.symm.trans hread
    · rename_i e hread'
      cases hread'.symm.trans hread

theorem readAll_of_read_eq_none (h : read stream = .ok none) : readAll stream = ([], stream, none) := by
  rw [readAll]
  split
  · rename_i hread
    cases hread.symm.trans h
  · rfl
  · rename_i hread
    cases hread.symm.trans h

/-- Whatever the stream, the calls come to an end, and the loop gives what they gave. -/
theorem exists_yields (stream : List UInt8) : ∃ payloads left, Yields stream payloads left ∧
    ((read left = .ok none ∧ readAll stream = (payloads, left, none)) ∨
      ∃ e, read left = .error e ∧ readAll stream = (payloads, left, some e)) := by
  fun_induction readAll stream with
  | case1 stream payload rest hread _ payloads left error hrest ih =>
    obtain ⟨payloads', left', hyields, hend⟩ := ih
    refine ⟨payload :: payloads', left', .cons hread hyields, ?_⟩
    obtain ⟨hnone, heq⟩ | ⟨e, herror, heq⟩ := hend
    · cases hrest.symm.trans heq
      exact .inl ⟨hnone, rfl⟩
    · cases hrest.symm.trans heq
      exact .inr ⟨e, herror, rfl⟩
  | case2 stream hread => exact ⟨[], stream, .nil stream, .inl ⟨hread, rfl⟩⟩
  | case3 stream e hread => exact ⟨[], stream, .nil stream, .inr ⟨e, hread, rfl⟩⟩

/-- Messages that are not too long are read back from their frames; a stream that is read to its end is made of the frames of the messages read and an incomplete header; and reading comes to an end after at most a quarter as many calls as there are bytes, at an incomplete header, or at one with a negative length, too large a length or too few bytes behind it. -/
theorem readAll_roundTrip :
    (∀ payloads : List (List UInt8), (∀ payload ∈ payloads, payload.length ≤ maxLength) →
      ∃ frames, payloads.mapM encode? = some frames ∧ readAll frames.flatten = (payloads, [], none)) ∧
    (∀ stream payloads left, readAll stream = (payloads, left, none) →
      ∃ frames, payloads.mapM encode? = some frames ∧ stream = frames.flatten ++ left ∧
        left.length < 4) ∧
    ∀ stream, ∃ payloads left, Yields stream payloads left ∧ 4 * payloads.length ≤ stream.length ∧
      ((read left = .ok none ∧ readAll stream = (payloads, left, none)) ∨
        ∃ e, read left = .error e ∧ Breaks left e ∧ readAll stream = (payloads, left, some e)) := by
  refine ⟨fun payloads hmax => ?_, fun stream payloads left h => ?_, fun stream => ?_⟩
  · obtain ⟨frames, hframes, hwire⟩ := encode_all hmax
    refine ⟨frames, hframes, ?_⟩
    have hyields := Yields.of_wire hmax []
    rw [List.append_nil, ← hwire] at hyields
    exact hyields.readAll_eq (readAll_of_read_eq_none rfl)
  · obtain ⟨payloads', left', hyields, ⟨hnone, heq⟩ | ⟨e, -, heq⟩⟩ := exists_yields stream
    · cases heq.symm.trans h
      obtain ⟨hmax, hstream⟩ := hyields.stream_eq
      obtain ⟨frames, hframes, hwire⟩ := encode_all hmax
      exact ⟨frames, hframes, hwire ▸ hstream, length_lt_of_read_eq_none hnone⟩
    · cases heq.symm.trans h
  · obtain ⟨payloads, left, hyields, hend⟩ := exists_yields stream
    refine ⟨payloads, left, hyields, hyields.length_le, hend.imp_right ?_⟩
    rintro ⟨e, herror, heq⟩
    exact ⟨e, herror, breaks_of_read_eq_error herror, heq⟩

/-- An empty message and one of two bytes, and then three bytes of a header. -/
theorem readAll_roundTrip_two :
    (∀ payload ∈ [[], ([0x7b, 0x7d] : List UInt8)], payload.length ≤ maxLength) ∧
    (∃ frames, [[], [0x7b, 0x7d]].mapM encode? = some frames ∧
      readAll frames.flatten = ([[], [0x7b, 0x7d]], [], none)) ∧
    readAll [0, 0, 0, 0, 2, 0, 0, 0, 0x7b, 0x7d, 1, 0, 0] = ([[], [0x7b, 0x7d]], [1, 0, 0], none) ∧
    ∃ frames, [[], [0x7b, 0x7d]].mapM encode? = some frames ∧
      [0, 0, 0, 0, 2, 0, 0, 0, 0x7b, 0x7d, 1, 0, 0] = frames.flatten ++ [1, 0, 0] ∧
      ([1, 0, 0] : List UInt8).length < 4 := by
  have hmax : ∀ payload ∈ [[], ([0x7b, 0x7d] : List UInt8)], payload.length ≤ maxLength := by decide
  have hread : readAll [0, 0, 0, 0, 2, 0, 0, 0, 0x7b, 0x7d, 1, 0, 0] =
      ([[], [0x7b, 0x7d]], [1, 0, 0], none) := by cbv
  exact ⟨hmax, readAll_roundTrip.1 _ hmax, hread, readAll_roundTrip.2.1 _ _ _ hread⟩

end TwinShell.Frame
