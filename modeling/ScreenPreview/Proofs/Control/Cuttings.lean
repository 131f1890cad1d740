import ScreenPreview.Proofs.Control.Segments

/-!
A control stream that comes in reads.

All lines are taken off each read in turn. The bytes behind a line that is no text are lost as far
as the read goes that ends the line, so what can come of a stream depends on where it was cut: it is
the texts of what is spared when, behind each line that is no text, less than a read is lost
(`takeReads_iff`). Cut byte by byte, a stream loses nothing.
-/
namespace ScreenPreview.Control.Line

/-- Take all lines off each read, behind what the reads before it have left. Gives the lines and
what is left at the end. -/
def takeReads (limit : Nat) (pending : Bytes) : List Bytes → List String × Bytes
  | [] => ([], pending)
  | data :: rest =>
    let (lines, left) := takeAll limit (pending ++ data)
    let (more, left) := takeReads limit left rest
    (lines ++ more, left)

/-- What may be spared of a stream if fewer than `n` bytes are lost behind any line that is no
text. -/
inductive Spared (n : Nat) : Bytes → Bytes → Prop where
  | opened {line : Bytes} (inside : Open line) : Spared n line line
  | whole {line rest kept : Bytes} {t : UInt8} (inside : Open line) (ends : isTerminator t = true)
    (behind : Spared n rest kept) : Spared n (line ++ t :: rest) (line ++ t :: kept)
  | fault {line lost rest kept : Bytes} {t : UInt8} (inside : Open line)
    (ends : isTerminator t = true) (faulty : Faulty line) (few : lost.length < n)
    (behind : Spared n rest kept) : Spared n (line ++ t :: (lost ++ rest)) (line ++ t :: kept)

/-- No line of a stream that has its terminator is longer than this. -/
def Short (limit : Nat) (stream : Bytes) : Prop := ∀ line ∈ ended stream, line.length ≤ limit

def Sized (n : Nat) (reads : List Bytes) : Prop := ∀ data ∈ reads, data ≠ [] ∧ data.length ≤ n

variable {n limit : Nat} {line front rest pending stream kept : Bytes} {reads : List Bytes}
  {t : UInt8}

theorem takeReads_append (limit : Nat) (pending : Bytes) (early late : List Bytes) :
    takeReads limit pending (early ++ late) =
      ((takeReads limit pending early).1 ++
          (takeReads limit (takeReads limit pending early).2 late).1,
        (takeReads limit (takeReads limit pending early).2 late).2) := by
  induction early generalizing pending with
  | nil => rfl
  | cons data early ih => simp only [List.cons_append, takeReads, ih, List.append_assoc]

/-! ### What is spared -/

theorem Spared.refl (n : Nat) (stream : Bytes) : Spared n stream stream := by
  induction stream using by_lines with
  | opened line inside => exact .opened inside
  | ended line t rest inside ends ih => exact .whole inside ends ih

theorem Spared.eq_of_text (spared : Spared n stream kept)
    (text : ∀ line ∈ ended stream, ¬ Faulty line) : kept = stream := by
  induction spared with
  | opened inside => rfl
  | whole inside ends behind ih =>
    rw [ended_cons inside ends, List.forall_mem_cons] at text
    rw [ih text.2]
  | fault inside ends faulty few behind ih =>
    rw [ended_cons inside ends, List.forall_mem_cons] at text
    exact absurd faulty text.1

theorem Spared.eq_of_open (spared : Spared n stream kept) (inside : Open stream) :
    kept = stream := by
  apply spared.eq_of_text
  rw [ended_of_open inside]
  intro line member
  cases member

theorem line_unique {other behind : Bytes} {u : UInt8} (inside : Open line)
    (ends : isTerminator t = true) (other_inside : Open other) (other_ends : isTerminator u = true)
    (same : line ++ t :: rest = other ++ u :: behind) : line = other ∧ t :: rest = u :: behind := by
  obtain ⟨first, rest_eq⟩ := head_of_line rest inside ends
  obtain ⟨second, behind_eq⟩ := head_of_line behind other_inside other_ends
  rw [same] at first rest_eq
  exact ⟨first.symm.trans second, rest_eq.symm.trans behind_eq⟩

theorem Spared.of_cons (spared : Spared n (line ++ t :: rest) kept) (inside : Open line)
    (ends : isTerminator t = true) :
    ∃ lost later spare, rest = lost ++ later ∧ (lost ≠ [] → Faulty line ∧ lost.length < n) ∧
      Spared n later spare ∧ kept = line ++ t :: spare := by
  generalize whole : line ++ t :: rest = stream at spared
  cases spared with
  | opened open_whole =>
    have none_ends := open_whole t (by rw [← whole]; simp)
    simp [ends] at none_ends
  | whole other_inside other_ends behind =>
    obtain ⟨rfl, same⟩ := line_unique inside ends other_inside other_ends whole
    cases same
    exact ⟨[], _, _, rfl, by simp, behind, rfl⟩
  | fault other_inside other_ends faulty few behind =>
    obtain ⟨rfl, same⟩ := line_unique inside ends other_inside other_ends whole
    cases same
    exact ⟨_, _, _, rfl, fun _ => ⟨faulty, few⟩, behind, rfl⟩

theorem Open.append (inside : Open front) (also : Open rest) : Open (front ++ rest) := by
  intro b member
  rcases List.mem_append.mp member with first | second
  · exact inside b first
  · exact also b second

theorem exists_suffix_of_ended (inside : Open front) (member : line ∈ ended rest) :
    ∃ whole ∈ ended (front ++ rest), line <:+ whole := by
  rcases open_or_line rest with none_ends | ⟨first, t, behind, rfl, first_inside, ends⟩
  · rw [ended_of_open none_ends] at member
    cases member
  · rw [ended_cons first_inside ends] at member
    rw [← List.append_assoc, ended_cons (inside.append first_inside) ends]
    rcases List.mem_cons.mp member with rfl | later
    · exact ⟨front ++ line, List.mem_cons_self, List.suffix_append front line⟩
    · exact ⟨line, List.mem_cons_of_mem _ later, List.suffix_rfl⟩

theorem short_cons (inside : Open line) (ends : isTerminator t = true) :
    Short limit (line ++ t :: rest) ↔ line.length ≤ limit ∧ Short limit rest := by
  rw [Short, ended_cons inside ends, List.forall_mem_cons]
  rfl

theorem Short.left (short : Short limit (front ++ rest)) :
    Short limit (unended front ++ rest) := by
  intro line member
  apply short line
  rw [ended_append]
  exact List.mem_append_right _ member

theorem Short.suffix (short : Short limit (front ++ rest)) : Short limit rest := by
  intro line member
  obtain ⟨whole, inside, suffix⟩ := exists_suffix_of_ended (unended_open front) member
  exact suffix.length_le.trans (short.left whole inside)

theorem Short.open_of_long (short : Short limit (front ++ rest)) (inside : Open front)
    (long : limit < front.length) : Open rest := by
  rcases open_or_line rest with none_ends | ⟨line, t, behind, rfl, line_inside, ends⟩
  · exact none_ends
  · have first : front ++ line ∈ ended (front ++ (line ++ t :: behind)) := by
      rw [← List.append_assoc, ended_cons (inside.append line_inside) ends]
      exact List.mem_cons_self
    have bound := short (front ++ line) first
    rw [List.length_append] at bound
    omega

/-! ### From the reads to what is spared -/

theorem takeReads_of_open (inside : Open pending) (none_ends : ∀ data ∈ reads, Open data) :
    (takeReads limit pending reads).1 = [] := by
  induction reads generalizing pending with
  | nil => rfl
  | cons data rest ih =>
    rw [List.forall_mem_cons] at none_ends
    have buffer := inside.append none_ends.1
    simp only [takeReads, takeAll_eq, untilFault_of_open buffer, unended_of_open buffer,
      texts_of_open buffer, List.nil_append]
    split
    · exact ih open_nil none_ends.2
    · exact ih buffer none_ends.2

theorem length_lt_untilFault {data : Bytes} (inside : Open pending) (some_data : data ≠ []) :
    pending.length < (untilFault (pending ++ data)).length := by
  rcases open_or_line data with none_ends | ⟨line, t, behind, rfl, line_inside, ends⟩
  · rw [untilFault_of_open (inside.append none_ends), List.length_append]
    have := List.length_pos_of_ne_nil some_data
    omega
  · have first := inside.append line_inside
    rw [← List.append_assoc]
    cases read : Text.Utf8.read (pending ++ line) with
    | error fault =>
      rw [untilFault_of_fault first ends ⟨fault, read⟩]
      simp only [List.length_append, List.length_cons]
      omega
    | ok text =>
      rw [untilFault_of_line first ends read]
      simp only [List.length_append, List.length_cons]
      omega

theorem spared_of_buffer {buffer behind : Bytes}
    (few : buffer.length - (untilFault buffer).length < n)
    (later : Spared n (unended (untilFault buffer) ++ behind) kept) :
    ∃ whole, Spared n (buffer ++ behind) whole ∧
      texts whole = texts (untilFault buffer) ++ texts kept := by
  induction buffer using by_lines with
  | opened line inside =>
    rw [untilFault_of_open inside, unended_of_open inside] at later
    rw [untilFault_of_open inside, texts_of_open inside]
    exact ⟨kept, later, rfl⟩
  | ended line t rest inside ends ih =>
    rw [List.append_assoc, List.cons_append]
    cases read : Text.Utf8.read line with
    | error fault =>
      have faulty : Faulty line := ⟨fault, read⟩
      rw [untilFault_of_fault inside ends faulty] at few later ⊢
      rw [unended_append_cons line [] ends, unended_of_open open_nil] at later
      have lost : rest.length < n := by
        simp only [List.length_append, List.length_cons, List.length_nil] at few
        omega
      refine ⟨line ++ t :: kept, .fault inside ends faulty lost later, ?_⟩
      rw [texts_cons inside ends, texts_cons inside ends, texts_of_open open_nil, List.append_nil]
    | ok text =>
      rw [untilFault_of_line inside ends read] at few later ⊢
      rw [unended_append_cons line _ ends] at later
      have fewer : rest.length - (untilFault rest).length < n := by
        simp only [List.length_append, List.length_cons] at few
        omega
      obtain ⟨whole, spared, same⟩ := ih fewer later
      refine ⟨line ++ t :: whole, .whole inside ends spared, ?_⟩
      rw [texts_cons inside ends, texts_cons inside ends, same, List.append_assoc]

theorem Short.left_of_buffer {buffer behind : Bytes}
    (short : Short limit (buffer ++ behind)) :
    Short limit (unended (untilFault buffer) ++ behind) := by
  induction buffer using by_lines with
  | opened line inside => rwa [untilFault_of_open inside, unended_of_open inside]
  | ended line t rest inside ends ih =>
    rw [List.append_assoc, List.cons_append, short_cons inside ends] at short
    have later := short.2
    cases read : Text.Utf8.read line with
    | error fault =>
      rw [untilFault_of_fault inside ends ⟨fault, read⟩, unended_append_cons line [] ends,
        unended_of_open open_nil]
      exact later.suffix
    | ok text =>
      rw [untilFault_of_line inside ends read, unended_append_cons line _ ends]
      exact ih later

theorem takeReads_spared (inside : Open pending) (short : Short limit (pending ++ reads.flatten))
    (sized : Sized n reads) :
    ∃ kept, Spared n (pending ++ reads.flatten) kept ∧
      (takeReads limit pending reads).1 = texts kept := by
  induction reads generalizing pending with
  | nil =>
    have whole : Open (pending ++ [].flatten) := inside.append open_nil
    exact ⟨_, .opened whole, (texts_of_open whole).symm⟩
  | cons data rest ih =>
    obtain ⟨⟨some_data, most⟩, sized⟩ := List.forall_mem_cons.mp sized
    rw [List.flatten_cons, ← List.append_assoc] at short ⊢
    have looked := length_lt_untilFault inside some_data
    have few : (pending ++ data).length - (untilFault (pending ++ data)).length < n := by
      have := List.length_pos_of_ne_nil some_data
      rw [List.length_append]
      omega
    have left_short := short.left_of_buffer
    have left_open := unended_open (untilFault (pending ++ data))
    simp only [takeReads, takeAll_eq]
    split
    · -- Too much is left for a line, so no terminator comes any more.
      rename_i long
      have none_ends := left_short.open_of_long left_open long
      have all_open : ∀ data ∈ rest, Open data := fun data member b inside =>
        none_ends b (List.mem_flatten.mpr ⟨data, member, inside⟩)
      obtain ⟨whole, spared, same⟩ :=
        spared_of_buffer few (.opened (left_open.append none_ends))
      refine ⟨whole, spared, ?_⟩
      rw [takeReads_of_open open_nil all_open, same, texts_of_open (left_open.append none_ends)]
    · obtain ⟨kept, later, lines⟩ := ih left_open left_short sized
      obtain ⟨whole, spared, same⟩ := spared_of_buffer few later
      exact ⟨whole, spared, by rw [lines, same]⟩

/-! ### From what is spared to the reads -/

def bytewise (line : Bytes) : List Bytes := line.map ([·])

theorem flatten_bytewise (line : Bytes) : (bytewise line).flatten = line := by
  induction line with
  | nil => rfl
  | cons b line ih =>
    rw [bytewise, List.map_cons, List.flatten_cons]
    exact congrArg (b :: ·) ih

theorem sized_bytewise (some_room : 0 < n) (line : Bytes) : Sized n (bytewise line) := by
  intro data member
  obtain ⟨b, -, rfl⟩ := List.mem_map.mp member
  exact ⟨List.cons_ne_nil b [], some_room⟩

theorem takeReads_bytewise (inside : Open (pending ++ line))
    (bound : (pending ++ line).length ≤ limit) (more : List Bytes) :
    takeReads limit pending (bytewise line ++ more) = takeReads limit (pending ++ line) more := by
  induction line generalizing pending with
  | nil => rw [List.append_nil]; rfl
  | cons b line ih =>
    have split_off : pending ++ b :: line = pending ++ [b] ++ line := by simp
    rw [split_off] at inside bound ⊢
    have first : Open (pending ++ [b]) := fun a member => inside a (List.mem_append_left _ member)
    have taken : takeAll limit (pending ++ [b]) = ([], pending ++ [b]) := by
      have fits : ¬ limit < (pending ++ [b]).length := by
        rw [List.length_append] at bound
        omega
      rw [takeAll_eq, untilFault_of_open first, unended_of_open first, texts_of_open first,
        if_neg fits]
    rw [← ih inside bound]
    simp [bytewise, takeReads, taken]

def endingIn (last : Bytes) (line : Bytes) : List Bytes := bytewise line ++ [last]

theorem takeReads_endingIn (inside : Open line) (ends : isTerminator t = true)
    (bound : line.length ≤ limit) {lost : Bytes} (loses : lost ≠ [] → Faulty line)
    (more : List Bytes) :
    (takeReads limit [] (endingIn (t :: lost) line ++ more)).1 =
      (reading? line).toList ++ (takeReads limit [] more).1 := by
  have looked : untilFault (line ++ t :: lost) = line ++ [t] := by
    cases read : Text.Utf8.read line with
    | error fault => exact untilFault_of_fault inside ends ⟨fault, read⟩
    | ok text =>
      have nothing : lost = [] := by
        by_contra some_lost
        obtain ⟨fault, faulty⟩ := loses some_lost
        simp [faulty] at read
      rw [nothing, untilFault_of_line inside ends read, untilFault_of_open open_nil]
  have line_only : Open ([] ++ line) ∧ ([] ++ line).length ≤ limit := ⟨inside, bound⟩
  rw [endingIn, List.append_assoc, takeReads_bytewise line_only.1 line_only.2]
  simp only [List.nil_append, List.singleton_append, takeReads, takeAll_eq, looked,
    texts_cons inside ends, texts_of_open open_nil, unended_append_cons line [] ends,
    unended_of_open open_nil, List.append_nil, ite_self]

theorem flatten_endingIn (last line : Bytes) : (endingIn last line).flatten = line ++ last := by
  rw [endingIn, List.flatten_append, flatten_bytewise, List.flatten_singleton]

theorem sized_endingIn {lost : Bytes} (few : lost.length < n) (line : Bytes) :
    Sized n (endingIn (t :: lost) line) := by
  intro data member
  rcases List.mem_append.mp member with before | last
  · exact sized_bytewise (Nat.zero_lt_of_lt few) line data before
  · rw [List.mem_singleton.mp last]
    exact ⟨List.cons_ne_nil t lost, few⟩

theorem reads_of_spared (some_room : 0 < n) (short : Short limit stream)
    (spared : Spared n stream kept) :
    ∃ reads, reads.flatten = stream ∧ Sized n reads ∧
      (takeReads limit [] reads).1 = texts kept := by
  induction spared with
  | @opened line inside =>
    refine ⟨bytewise line, flatten_bytewise line, sized_bytewise some_room line, ?_⟩
    rw [texts_of_open inside]
    apply takeReads_of_open open_nil
    intro data member b within
    obtain ⟨a, among, rfl⟩ := List.mem_map.mp member
    rw [List.mem_singleton.mp within]
    exact inside a among
  | @whole line rest kept t inside ends behind ih =>
    obtain ⟨bound, later⟩ := (short_cons inside ends).mp short
    obtain ⟨reads, rfl, sized, lines⟩ := ih later
    refine ⟨endingIn [t] line ++ reads, ?_, ?_, ?_⟩
    · rw [List.flatten_append, flatten_endingIn, List.append_assoc, List.singleton_append]
    · exact List.forall_mem_append.mpr ⟨sized_endingIn some_room line, sized⟩
    · rw [takeReads_endingIn inside ends bound (by simp) reads, lines, texts_cons inside ends]
  | @fault line lost rest kept t inside ends faulty few behind ih =>
    obtain ⟨bound, later⟩ := (short_cons inside ends).mp short
    obtain ⟨reads, rfl, sized, lines⟩ := ih later.suffix
    refine ⟨endingIn (t :: lost) line ++ reads, ?_, ?_, ?_⟩
    · rw [List.flatten_append, flatten_endingIn, List.append_assoc, List.cons_append]
    · exact List.forall_mem_append.mpr ⟨sized_endingIn few line, sized⟩
    · rw [takeReads_endingIn inside ends bound (fun _ => faulty) reads, lines,
        texts_cons inside ends]

/-- What can come of a stream without too long lines, however it is cut into reads. -/
theorem takeReads_iff (some_room : 0 < n) (short : Short limit stream) (lines : List String) :
    (∃ reads, reads.flatten = stream ∧ Sized n reads ∧ (takeReads limit [] reads).1 = lines) ↔
      ∃ kept, Spared n stream kept ∧ texts kept = lines := by
  constructor
  · rintro ⟨reads, rfl, sized, rfl⟩
    have short : Short limit ([] ++ reads.flatten) := short
    obtain ⟨kept, spared, same⟩ := takeReads_spared open_nil short sized
    exact ⟨kept, spared, same.symm⟩
  · rintro ⟨kept, spared, rfl⟩
    exact reads_of_spared some_room short spared

end ScreenPreview.Control.Line
