import ScreenPreview.Proofs.Wire.Chunks

/-!
What taking a frame off a buffer can come to.

A buffer holds less than a header, or a header that cannot be read or announces too much, or a part
of a frame, or a whole frame and what follows it (`Taken`). What is taken off is the written form of
the frame that is found, nothing else is ever taken off, and what was found or refused once stays so
whatever is added to the buffer (`take_decides`). So any stream is read alike however it is cut,
also one that no writer of frames has made (`takeChunks_eq`).
-/
namespace ScreenPreview.Wire

namespace Header

theorem known_of_ofBytes {b : Bytes} {header : Header} (read : ofBytes b = .ok header) :
    Flags.ofBits? header.flags.bits = some header.flags := by
  unfold ofBytes at read
  split at read
  · split at read
    · cases read
    · rename_i flags found
      cases read
      rw [Flags.ofBits?_bits found, found]
  · cases read

theorem ofBytes_cases (b : Bytes) :
    b.length < size ∨
      (size ≤ b.length ∧ ∀ more, ofBytes (b ++ more) = .error .unknownFlags) ∨
      ∃ (header : Header) (body : Bytes),
        Flags.ofBits? header.flags.bits = some header.flags ∧ b = header.toBytes ++ body := by
  by_cases whole : size ≤ b.length
  · refine Or.inr ?_
    match b, whole with
    | w0 :: w1 :: w2 :: w3 :: h0 :: h1 :: h2 :: h3 :: l0 :: l1 :: l2 :: l3 :: f :: body, whole =>
      cases found : Flags.ofBits? f with
      | none => exact Or.inl ⟨whole, fun more => by simp [ofBytes, found]⟩
      | some flags =>
        obtain ⟨header, read⟩ : ∃ header, ofBytes (w0 :: w1 :: w2 :: w3 :: h0 :: h1 :: h2 :: h3 ::
            l0 :: l1 :: l2 :: l3 :: f :: body) = .ok header := by simp [ofBytes, found]
        refine Or.inr ⟨header, body, known_of_ofBytes read, ?_⟩
        rw [eq_of_ofBytes read]
        rfl
  · exact Or.inl (Nat.lt_of_not_le whole)

end Header

namespace Frame

variable {limit : Nat} {buffer : Bytes}

inductive Taken (limit : Nat) : Bytes → Except Failure (Option Frame) × Bytes → Prop
  | begun {buffer : Bytes} (short : buffer.length < Header.size) :
    Taken limit buffer (.ok none, buffer)
  | unread {buffer : Bytes} (whole : Header.size ≤ buffer.length)
    (fault : ∀ more, Header.ofBytes (buffer ++ more) = .error .unknownFlags) :
    Taken limit buffer (.error (.header .unknownFlags), buffer)
  | refused {header : Header} (body : Bytes)
    (known : Flags.ofBits? header.flags.bits = some header.flags)
    (large : limit < header.payloadLength.toNat) :
    Taken limit (header.toBytes ++ body)
      (.error (.tooLarge header.payloadLength.toNat limit), header.toBytes ++ body)
  | started {header : Header} {body : Bytes}
    (known : Flags.ofBits? header.flags.bits = some header.flags)
    (within : header.payloadLength.toNat ≤ limit)
    (missing : body.length < header.payloadLength.toNat) :
    Taken limit (header.toBytes ++ body) (.ok none, header.toBytes ++ body)
  | whole {frame : Frame} (rest : Bytes) (fits : Fits limit frame)
    (announces : frame.announced = frame) :
    Taken limit (frame.written ++ rest) (.ok (some frame), rest)

theorem taken_take (limit : Nat) (buffer : Bytes) : Taken limit buffer (take limit buffer) := by
  rcases Header.ofBytes_cases buffer with short | ⟨whole, fault⟩ | ⟨header, body, known, rfl⟩
  · rw [take, if_pos short]
    exact .begun short
  · have answer := fault []
    rw [List.append_nil] at answer
    rw [take, if_neg (Nat.not_lt.mpr whole), answer]
    exact .unread whole fault
  · rw [take_header limit body known]
    by_cases large : limit < header.payloadLength.toNat
    · rw [if_pos large]
      exact .refused body known large
    · by_cases missing : body.length < header.payloadLength.toNat
      · rw [if_neg large, if_pos missing]
        exact .started known (Nat.le_of_not_lt large) missing
      · rw [if_neg large, if_neg missing]
        have length := List.length_take_of_le (Nat.le_of_not_lt missing)
        have announces : announced ⟨header, body.take header.payloadLength.toNat⟩ =
            ⟨header, body.take header.payloadLength.toNat⟩ := by
          simp only [announced, length, Nat.toUInt32_eq, UInt32.ofNat_toNat]
        have fits : Fits limit ⟨header, body.take header.payloadLength.toNat⟩ := by
          refine ⟨?_, ?_, known⟩
          · rw [length]
            exact Nat.le_of_not_lt large
          · rw [length]
            exact header.payloadLength.toNat_lt
        have cut : header.toBytes ++ body =
            written ⟨header, body.take header.payloadLength.toNat⟩ ++
              body.drop header.payloadLength.toNat := by
          rw [written, announces, List.append_assoc, List.take_append_drop]
        rw [cut]
        exact .whole _ fits announces

/-! ### One frame -/

theorem take_eq_some_iff {frame : Frame} {rest : Bytes} :
    take limit buffer = (.ok (some frame), rest) ↔
      Fits limit frame ∧ frame.announced = frame ∧ buffer = frame.written ++ rest := by
  constructor
  · intro answer
    have taken := taken_take limit buffer
    rw [answer] at taken
    cases taken with
    | whole _ fits announces => exact ⟨fits, announces, rfl⟩
  · rintro ⟨fits, announces, rfl⟩
    rw [take_written fits, announces]

theorem take_keeps {verdict : Except Failure (Option Frame)} {rest : Bytes}
    (answer : take limit buffer = (verdict, rest)) (unfound : ∀ frame, verdict ≠ .ok (some frame)) :
    rest = buffer := by
  have taken := taken_take limit buffer
  rw [answer] at taken
  cases taken with
  | whole rest fits announces => exact absurd rfl (unfound _)
  | _ => rfl

theorem take_append_of_error {failure : Failure} {rest : Bytes}
    (answer : take limit buffer = (.error failure, rest)) (more : Bytes) :
    take limit (buffer ++ more) = (.error failure, rest ++ more) := by
  have taken := taken_take limit buffer
  rw [answer] at taken
  cases taken with
  | unread whole fault =>
    have long : ¬ (buffer ++ more).length < Header.size := by
      rw [List.length_append]
      omega
    rw [take, if_neg long, fault]
  | refused body known large => rw [List.append_assoc, take_header _ _ known, if_pos large]

theorem take_append_of_some {frame : Frame} {rest : Bytes}
    (answer : take limit buffer = (.ok (some frame), rest)) (more : Bytes) :
    take limit (buffer ++ more) = (.ok (some frame), rest ++ more) := by
  obtain ⟨fits, announces, rfl⟩ := take_eq_some_iff.mp answer
  exact take_eq_some_iff.mpr ⟨fits, announces, List.append_assoc _ _ _⟩

/-- Behind a whole header, waiting is for bytes that can come: those of the payload. -/
theorem exists_take_append {left : Bytes} (answer : take limit buffer = (.ok none, left))
    (whole : Header.size ≤ buffer.length) :
    ∃ more frame rest, take limit (buffer ++ more) = (.ok (some frame), rest) := by
  have taken := taken_take limit buffer
  rw [answer] at taken
  cases taken with
  | begun short => exact absurd whole (Nat.not_le.mpr short)
  | @started header body known within missing =>
    let more : Bytes := List.replicate (header.payloadLength.toNat - body.length) 0
    have enough : ¬ (body ++ more).length < header.payloadLength.toNat := by
      simp only [more, List.length_append, List.length_replicate]
      omega
    refine ⟨more, ⟨header, (body ++ more).take header.payloadLength.toNat⟩,
      (body ++ more).drop header.payloadLength.toNat, ?_⟩
    rw [List.append_assoc, take_header _ _ known, if_neg (Nat.not_lt.mpr within), if_neg enough]

/-- A buffer from which a frame is taken starts with what a writer makes of some frame, whose
payload may be longer than a header can announce. -/
theorem exists_take_iff :
    (∃ frame rest, take limit buffer = (.ok (some frame), rest)) ↔
      ∃ (frame : Frame) (bytes rest : Bytes),
        Flags.ofBits? frame.header.flags.bits = some frame.header.flags ∧
          frame.toBytes limit = .ok bytes ∧ buffer = bytes ++ rest := by
  constructor
  · rintro ⟨frame, rest, answer⟩
    obtain ⟨fits, -, rfl⟩ := take_eq_some_iff.mp answer
    exact ⟨frame, frame.written, rest, fits.known, toBytes_of_fits fits, rfl⟩
  · rintro ⟨frame, bytes, rest, known, made, rfl⟩
    unfold toBytes at made
    split at made
    · cases made
    · rename_i within
      cases made
      have short : frame.announced.header.payloadLength.toNat ≤ frame.payload.length := by
        rw [show frame.announced.header.payloadLength = UInt32.ofNat frame.payload.length from rfl,
          UInt32.toNat_ofNat']
        exact Nat.mod_le _ _
      have small : ¬ limit < frame.announced.header.payloadLength.toNat := by omega
      have enough : ¬ (frame.payload ++ rest).length <
          frame.announced.header.payloadLength.toNat := by
        rw [List.length_append]
        omega
      have answer := @take_header limit frame.announced.header (frame.payload ++ rest) known
      rw [if_neg small, if_neg enough, ← List.append_assoc] at answer
      exact ⟨_, _, answer⟩

/-! ### All frames -/

theorem takeAll_of_refused {failure : Failure} {rest : Bytes}
    (answer : take limit buffer = (.error failure, rest)) :
    takeAll limit buffer = ([], some failure, rest) := by
  rw [takeAll]
  split <;> simp_all

theorem takeAll_spelled (limit : Nat) (buffer : Bytes) :
    let all := takeAll limit buffer
    buffer = all.1.flatMap written ++ all.2.2 ∧
      (∀ frame ∈ all.1, Fits limit frame ∧ frame.announced = frame) ∧
      take limit all.2.2 = (all.2.1.elim (.ok none) .error, all.2.2) := by
  fun_induction takeAll limit buffer with
  | case1 buffer failure rest refused =>
    obtain rfl := take_keeps refused (by simp)
    exact ⟨rfl, by simp, refused⟩
  | case2 buffer rest waiting =>
    obtain rfl := take_keeps waiting (by simp)
    exact ⟨rfl, by simp, waiting⟩
  | case3 buffer frame rest taken shorter frames failure left same ih =>
    rw [same] at ih
    obtain ⟨spelled, fit, ends⟩ := ih
    obtain ⟨fits, announces, split⟩ := take_eq_some_iff.mp taken
    refine ⟨?_, List.forall_mem_cons.mpr ⟨⟨fits, announces⟩, fit⟩, ends⟩
    rw [split, List.flatMap_cons, List.append_assoc]
    exact congrArg _ spelled

/-- What comes later is read as if it had stood behind what was left, and not at all behind a frame
that was refused. -/
theorem takeAll_append (limit : Nat) (buffer more : Bytes) :
    let all := takeAll limit buffer
    takeAll limit (buffer ++ more) =
      match all.2.1 with
      | some failure => (all.1, some failure, all.2.2 ++ more)
      | none => (all.1 ++ (takeAll limit (all.2.2 ++ more)).1,
          (takeAll limit (all.2.2 ++ more)).2) := by
  fun_induction takeAll limit buffer with
  | case1 buffer failure rest refused =>
    exact takeAll_of_refused (take_append_of_error refused more)
  | case2 buffer rest waiting =>
    obtain rfl := take_keeps waiting (by simp)
    rfl
  | case3 buffer frame rest taken shorter frames failure left same ih =>
    rw [same] at ih
    rw [takeAll_of_taken (take_append_of_some taken more), ih]
    cases failure <;> rfl

theorem takeChunks_eq (waiting : take limit buffer = (.ok none, buffer)) (chunks : List Bytes) :
    let all := takeAll limit (buffer ++ chunks.flatten)
    (takeChunks limit buffer chunks).1 = all.1 ∧ (takeChunks limit buffer chunks).2.1 = all.2.1 ∧
      (all.2.1 = none → (takeChunks limit buffer chunks).2.2 = all.2.2) := by
  induction chunks generalizing buffer with
  | nil =>
    rw [List.flatten_nil, List.append_nil, takeAll_of_waiting waiting]
    exact ⟨rfl, rfl, fun _ => rfl⟩
  | cons chunk chunks ih =>
    have joined := takeAll_append limit (buffer ++ chunk) chunks.flatten
    have ends := (takeAll_spelled limit (buffer ++ chunk)).2.2
    rw [List.flatten_cons, ← List.append_assoc, takeChunks]
    rcases all : takeAll limit (buffer ++ chunk) with ⟨frames, failure | failure, rest⟩
    · rw [all] at joined ends
      obtain ⟨later, fault, left⟩ := ih ends
      simp only [joined, later, fault]
      exact ⟨trivial, trivial, left⟩
    · rw [all] at joined
      simp only [joined]
      exact ⟨trivial, trivial, fun ends => by cases ends⟩

/-- Where no frame is found the buffer stays as it is. A frame that is found was written in front of
what is left, and with more bytes behind the buffer the same is found and they are left too; so it
is with a refusal. Where a frame with a whole header is waited for, it can still come. So frames are
found exactly where a writer has put one. -/
theorem take_decides (limit : Nat) (buffer : Bytes) :
    (∀ rest, take limit buffer = (.ok none, rest) → rest = buffer) ∧
    (∀ failure rest, take limit buffer = (.error failure, rest) →
      rest = buffer ∧ ∀ more, take limit (buffer ++ more) = (.error failure, rest ++ more)) ∧
    (∀ frame rest, take limit buffer = (.ok (some frame), rest) →
      (∃ bytes, frame.toBytes limit = .ok bytes ∧ buffer = bytes ++ rest) ∧
      ∀ more, take limit (buffer ++ more) = (.ok (some frame), rest ++ more)) ∧
    (Header.size ≤ buffer.length → ∀ left, take limit buffer = (.ok none, left) →
      ∃ more frame rest, take limit (buffer ++ more) = (.ok (some frame), rest)) ∧
    ((∃ frame rest, take limit buffer = (.ok (some frame), rest)) ↔
      ∃ (frame : Frame) (bytes rest : Bytes),
        Flags.ofBits? frame.header.flags.bits = some frame.header.flags ∧
          frame.toBytes limit = .ok bytes ∧ buffer = bytes ++ rest) := by
  refine ⟨?_, ?_, ?_, ?_, exists_take_iff⟩
  · intro rest waiting
    exact take_keeps waiting (by simp)
  · intro failure rest refused
    exact ⟨take_keeps refused (by simp), take_append_of_error refused⟩
  · intro frame rest taken
    obtain ⟨fits, -, cut⟩ := take_eq_some_iff.mp taken
    exact ⟨⟨frame.written, toBytes_of_fits fits, cut⟩, take_append_of_some taken⟩
  · intro whole left waiting
    exact exists_take_append waiting whole

theorem take_decides_each :
    (∀ more, take 3 ([0, 0, 4, 56, 255, 255, 255, 255, 0, 0, 0, 0, 1, 9] ++ more) =
      (.ok (some ⟨⟨1080, -1, 0, .empty⟩, []⟩), 9 :: more)) ∧
    (∀ more, take 3 ([0, 0, 4, 56, 0, 0, 9, 36, 0, 0, 0, 4, 0] ++ more) =
      (.error (.tooLarge 4 3), [0, 0, 4, 56, 0, 0, 9, 36, 0, 0, 0, 4, 0] ++ more)) ∧
    (take 3 [0, 0, 4, 56, 0, 0, 9, 36, 0, 0, 0, 3, 0, 9]).2 =
      [0, 0, 4, 56, 0, 0, 9, 36, 0, 0, 0, 3, 0, 9] ∧
    ∃ more frame rest, take 3 ([0, 0, 4, 56, 0, 0, 9, 36, 0, 0, 0, 3, 0, 9] ++ more) =
      (.ok (some frame), rest) := by
  obtain ⟨-, -, found, -⟩ := take_decides 3 [0, 0, 4, 56, 255, 255, 255, 255, 0, 0, 0, 0, 1, 9]
  obtain ⟨-, refused, -⟩ := take_decides 3 [0, 0, 4, 56, 0, 0, 9, 36, 0, 0, 0, 4, 0]
  obtain ⟨kept, -, -, waits, -⟩ := take_decides 3 [0, 0, 4, 56, 0, 0, 9, 36, 0, 0, 0, 3, 0, 9]
  exact ⟨(found ⟨⟨1080, -1, 0, .empty⟩, []⟩ [9] rfl).2, (refused _ _ rfl).2, kept _ rfl,
    waits (by decide) _ rfl⟩

end Frame

end ScreenPreview.Wire
