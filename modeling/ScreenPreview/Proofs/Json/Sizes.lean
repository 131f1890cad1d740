import Mathlib.Algebra.GroupWithZero.Nat
import Mathlib.Algebra.Order.BigOperators.Group.List
import Mathlib.Data.List.Nodup
import Mathlib.Data.List.Perm.Subperm
import Mathlib.Data.String.Basic
import ScreenPreview.Proofs.Json.Records
import ScreenPreview.Json.Printer
import ScreenPreview.Json.Reader

/-!
The bytes of JSON texts.

A string takes no more bytes when it is written than it took where it was read, for every escape is
the shortest one of its character. So a text that was read is at least as long as the strings and
the members of its value are when they are written (`weight_le_of_readWithin`).
-/
namespace ScreenPreview.Json

open String (utf8Len)

def escaped (s : String) : Nat := utf8Len (s.toList.flatMap escape)

/-! ### Characters -/

theorem add_length_le (cs rest : List Char) :
    utf8Len rest + cs.length ≤ utf8Len (cs ++ rest) := by
  induction cs with
  | nil => exact Nat.le_refl _
  | cons c cs ih =>
    have one := c.utf8Size_pos
    rw [List.cons_append, String.utf8Len_cons, List.length_cons]
    omega

theorem utf8Len_flatMap_cons (c : Char) (cs : List Char) :
    utf8Len ((c :: cs).flatMap escape) = utf8Len (escape c) + utf8Len (cs.flatMap escape) := by
  rw [List.flatMap_cons, String.utf8Len_append]

theorem utf8Len_flatMap_reverse (cs : List Char) :
    utf8Len (cs.reverse.flatMap escape) = utf8Len (cs.flatMap escape) := by
  induction cs with
  | nil => rfl
  | cons c cs ih =>
    rw [List.reverse_cons, List.flatMap_append, String.utf8Len_append, ih, utf8Len_flatMap_cons,
      utf8Len_flatMap_cons, Nat.add_comm]
    rfl

theorem utf8Len_escape_le (c : Char) : utf8Len (escape c) ≤ 6 := by
  unfold escape
  split
  · decide
  · split
    · decide
    · split
      · have least := c.utf8Size_le_four
        rw [String.utf8Len_cons, String.utf8Len_nil]
        omega
      · next control =>
        have small : c.toNat < 32 := Nat.lt_of_not_le control
        generalize c.toNat = n at small
        revert n
        decide

theorem one_le_utf8Len_escape (c : Char) : 1 ≤ utf8Len (escape c) := by
  have some_char : utf8Len (escape c) ≠ 0 := by
    rw [Ne, String.utf8Len_eq_zero]
    unfold escape
    repeat' split
    all_goals exact List.cons_ne_nil _ _
  omega

theorem utf8Len_escape_le_of_unescape {c x : Char} (stands : unescape? c = some x) :
    utf8Len (escape x) ≤ 2 := by
  unfold unescape? at stands
  split at stands
  any_goals
    cases stands
    decide
  cases stands

theorem utf8Len_le (cs : List Char) : utf8Len cs ≤ 4 * cs.length := by
  induction cs with
  | nil => exact Nat.le_refl 0
  | cons c cs ih =>
    have most := c.utf8Size_le_four
    rw [String.utf8Len_cons, List.length_cons]
    omega

theorem utf8Len_flatMap_le (cs : List Char) : utf8Len (cs.flatMap escape) ≤ 6 * cs.length := by
  induction cs with
  | nil => exact Nat.le_refl 0
  | cons c cs ih =>
    have most := utf8Len_escape_le c
    rw [utf8Len_flatMap_cons, List.length_cons]
    omega

/-! ### Strings -/

theorem escaped_append (s t : String) : escaped (s ++ t) = escaped s + escaped t := by
  rw [escaped, String.toList_append, List.flatMap_append, String.utf8Len_append]
  rfl

theorem escaped_around (front s back : String) :
    escaped (front ++ s ++ back) = escaped front + escaped s + escaped back := by
  rw [escaped_append, escaped_append]

theorem utf8Len_quoted (s : String) : utf8Len (quoted s) = escaped s + 2 := by
  rw [quoted, String.utf8Len_append, String.utf8Len_cons, escaped]
  rfl

theorem length_le_escaped (s : String) : s.toList.length ≤ escaped s := by
  rw [escaped]
  induction s.toList with
  | nil => exact Nat.le_refl 0
  | cons c cs ih =>
    have one := one_le_utf8Len_escape c
    rw [utf8Len_flatMap_cons, List.length_cons]
    omega

theorem escaped_le_of_stringRest {read cs rest : List Char} {s : String}
    (taken : stringRest read cs = some (s, rest)) :
    escaped s + 1 + utf8Len rest ≤ utf8Len (read.flatMap escape) + utf8Len cs := by
  fun_induction stringRest read cs with
  | case1 => cases taken
  | case2 read left =>
    cases taken
    rw [escaped, String.toList_ofList, utf8Len_flatMap_reverse, String.utf8Len_cons]
    have quote : Char.utf8Size '\x22' = 1 := rfl
    omega
  | case3 read a b c d left x unit ih =>
    have paid := ih taken
    have most := utf8Len_escape_le x
    have spent := add_length_le ['\x5c', 'u', a, b, c, d] left
    rw [utf8Len_flatMap_cons] at paid
    simp only [List.length_cons, List.length_nil, List.cons_append, List.nil_append] at spent
    omega
  | case4 read a b c d high first e f g h left low second ih =>
    have paid := ih taken
    have most := utf8Len_escape_le (pairOf high low)
    have spent := add_length_le ['\x5c', 'u', a, b, c, d, '\x5c', 'u', e, f, g, h] left
    rw [utf8Len_flatMap_cons] at paid
    simp only [List.length_cons, List.length_nil, List.cons_append, List.nil_append] at spent
    omega
  | case5 => cases taken
  | case6 => cases taken
  | case7 => cases taken
  | case8 read c left no_unit x stands ih =>
    have paid := ih taken
    have most := utf8Len_escape_le_of_unescape stands
    have spent := add_length_le ['\x5c', c] left
    rw [utf8Len_flatMap_cons] at paid
    simp only [List.length_cons, List.length_nil, List.cons_append, List.nil_append] at spent
    omega
  | case9 => cases taken
  | case10 => cases taken
  | case11 read c left no_quote no_unit no_escape printed ih =>
    have no_backslash : c ≠ '\x5c' := by
      rintro rfl
      cases left with
      | nil => cases taken
      | cons d left => exact no_escape d left rfl rfl
    have same : escape c = [c] := by
      rw [escape, if_neg no_quote, if_neg no_backslash, if_pos (Char.not_lt.mp printed)]
    have paid := ih taken
    rw [utf8Len_flatMap_cons, same] at paid
    simp only [String.utf8Len_cons, String.utf8Len_nil] at paid ⊢
    omega

/-! ### Numbers -/

def Plain (j : Json) : Prop := (∃ n, j = .int n) ∨ ∃ x, j = .real x

theorem gather_suffix (g : Gathered) (cs : List Char) : (gather g cs).2 <:+ cs := by
  induction cs generalizing g with
  | nil => exact List.suffix_refl _
  | cons c cs ih =>
    rw [gather]
    split
    · exact (ih _).trans (List.suffix_cons c cs)
    · exact List.suffix_refl _

theorem realOf_plain {negative : Bool} {digits : Nat} {power : Int} {j : Json}
    (made : realOf negative digits power = some j) : Plain j := by
  obtain ⟨x, -, rfl⟩ := Option.map_eq_some_iff.mp made
  exact Or.inr ⟨_, rfl⟩

theorem wholeOf_plain (negative : Bool) (n : Nat) : Plain (wholeOf negative n) := by
  unfold wholeOf
  split
  · exact Or.inl ⟨_, rfl⟩
  · split
    · exact Or.inr ⟨_, rfl⟩
    · exact Or.inl ⟨_, rfl⟩

theorem exponentDigits_suffix {cs rest : List Char} {n : Nat}
    (taken : exponentDigits cs = some (n, rest)) : rest <:+ cs := by
  unfold exponentDigits at taken
  split at taken
  · split at taken
    · cases taken
      exact List.dropWhile_suffix _
    · cases taken
  · cases taken

theorem exponentPart_suffix {negative : Bool} {digits : Nat} {power : Int} {cs rest : List Char}
    {j : Json} (taken : exponentPart negative digits power cs = some (j, rest)) :
    rest <:+ cs ∧ Plain j := by
  have signed {sign : Int} {ds : List Char}
      (taken : ((exponentDigits ds).bind fun read =>
        (realOf negative digits (power + sign * read.1)).map (·, read.2)) = some (j, rest)) :
      rest <:+ ds ∧ Plain j := by
    obtain ⟨⟨n, left⟩, read, made⟩ := Option.bind_eq_some_iff.mp taken
    obtain ⟨k, real, same⟩ := Option.map_eq_some_iff.mp made
    cases same
    exact ⟨exponentDigits_suffix read, realOf_plain real⟩
  have behind {c : Char} {ds : List Char} (found : rest <:+ ds ∧ Plain j) :
      rest <:+ c :: ds ∧ Plain j :=
    found.imp_left fun inside => inside.trans (List.suffix_cons c ds)
  unfold exponentPart at taken
  dsimp only at taken
  split at taken
  · split at taken
    · exact behind (behind (signed taken))
    · exact behind (behind (signed taken))
    · exact behind (signed taken)
  · split at taken
    · exact behind (behind (signed taken))
    · exact behind (behind (signed taken))
    · exact behind (signed taken)
  · obtain ⟨k, real, same⟩ := Option.map_eq_some_iff.mp taken
    cases same
    exact ⟨List.suffix_refl _, realOf_plain real⟩

theorem fractionPart_suffix {negative : Bool} {digits : Nat} {power : Int} {cs rest : List Char}
    {j : Json} (taken : fractionPart negative digits power cs = some (j, rest)) :
    rest <:+ cs ∧ Plain j := by
  have gathered := gather_suffix ⟨digits, 0⟩ cs
  unfold fractionPart at taken
  rcases found : gather ⟨digits, 0⟩ cs with ⟨g, left⟩
  rw [found] at taken gathered
  dsimp only at taken
  split at taken
  · split at taken
    · refine (exponentPart_suffix taken).imp_left fun inside => ?_
      exact inside.trans ((List.dropWhile_suffix _).trans gathered)
    · cases taken
  · cases taken

theorem unsigned_suffix {negative : Bool} {cs rest : List Char} {j : Json}
    (taken : unsigned negative cs = some (j, rest)) : rest <:+ cs ∧ Plain j := by
  unfold unsigned at taken
  split at taken
  · cases taken
  · next c ds =>
    split at taken
    · cases taken
    · split at taken
      · cases taken
      · have gathered := gather_suffix ⟨0, 0⟩ (c :: ds)
        rcases found : gather ⟨0, 0⟩ (c :: ds) with ⟨g, left⟩
        rw [found] at taken gathered
        dsimp only at taken
        have after := (List.dropWhile_suffix (p := Char.isDigit) (l := left)).trans gathered
        split at taken
        · next point =>
          rw [point] at after
          refine (fractionPart_suffix taken).imp_left fun inside => ?_
          exact inside.trans ((List.suffix_cons _ _).trans after)
        · split at taken
          · cases taken
            exact ⟨after, wholeOf_plain _ _⟩
          · exact (exponentPart_suffix taken).imp_left fun inside => inside.trans after

theorem number_suffix {cs rest : List Char} {j : Json} (taken : number cs = some (j, rest)) :
    rest <:+ cs ∧ Plain j := by
  unfold number at taken
  split at taken
  · exact (unsigned_suffix taken).imp_left fun inside => inside.trans (List.suffix_cons _ _)
  · exact unsigned_suffix taken

/-! ### Values -/

mutual

/-- The bytes that the strings and the members of a value take at least where it is written or read.
A member is counted with its colon and with the sign behind it; whatever else a value is made of is
not counted. -/
def weight : Json → Nat
  | text s => escaped s + 2
  | object members => memberWeight members + 1
  | _ => 0

def memberWeight : List (String × Json) → Nat
  | [] => 0
  | m :: rest => pairWeight m + memberWeight rest

def pairWeight : String × Json → Nat
  | (key, value) => escaped key + weight value + 4

end

theorem Plain.weight {j : Json} (plain : Plain j) : weight j = 0 := by
  rcases plain with ⟨n, rfl⟩ | ⟨x, rfl⟩ <;> rfl

theorem memberWeight_eq (ms : List (String × Json)) :
    memberWeight ms = (ms.map pairWeight).sum := by
  induction ms with
  | nil => rfl
  | cons m ms ih => rw [memberWeight, ih, List.map_cons, List.sum_cons]

theorem memberWeight_reverse (ms : List (String × Json)) :
    memberWeight ms.reverse = memberWeight ms := by
  rw [memberWeight_eq, memberWeight_eq, List.map_reverse, List.sum_reverse]

theorem sum_insertMember (f : String × Json → Nat) (key : String) (x : Json)
    (ms : List (String × Json)) :
    ((insertMember key x ms).map f).sum ≤ f (key, x) + (ms.map f).sum := by
  induction ms with
  | nil => exact Nat.le_refl _
  | cons m ms ih =>
    rw [insertMember]
    split
    · exact Nat.le_refl _
    · split
      · simp only [List.map_cons, List.sum_cons]
        omega
      · simp only [List.map_cons, List.sum_cons]
        omega

theorem sum_inOrder (f : String × Json → Nat) (ms : List (String × Json)) :
    ((inOrder ms).map f).sum ≤ (ms.map f).sum := by
  induction ms using List.reverseRecOn with
  | nil => exact Nat.le_refl _
  | append_singleton ms m ih =>
    obtain ⟨key, x⟩ := m
    have more := sum_insertMember f key x (inOrder ms)
    rw [List.map_append, List.sum_append, List.map_singleton, List.sum_singleton, Nat.add_comm]
    rw [inOrder_concat]
    exact Nat.le_trans more (Nat.add_le_add_left ih _)

theorem weight_record (ms : List (String × Json)) :
    weight (record ms) ≤ memberWeight ms + 1 := by
  rw [record_eq, weight, memberWeight_eq, memberWeight_eq]
  exact Nat.succ_le_succ (sum_inOrder pairWeight ms)

def PaidBy (item : List Char → Option (Json × List Char)) : Prop :=
  ∀ cs j rest, item cs = some (j, rest) → weight j + utf8Len rest ≤ utf8Len cs

variable {item : List Char → Option (Json × List Char)}

theorem utf8Len_skip_le (cs : List Char) : utf8Len (skip cs) ≤ utf8Len cs :=
  String.utf8Len_le_of_suffix (List.dropWhile_suffix _)

theorem skip_cons_le {c : Char} {cs rest : List Char} (found : skip cs = c :: rest) :
    utf8Len rest + 1 ≤ utf8Len cs := by
  have less := utf8Len_skip_le cs
  have one := c.utf8Size_pos
  rw [found, String.utf8Len_cons] at less
  omega

theorem le_of_items (paid : PaidBy item) {bound : Nat} {read xs : List Json} {cs rest : List Char}
    (taken : items item bound read cs = some (xs, rest)) : utf8Len rest ≤ utf8Len cs := by
  fun_induction items item bound read cs with
  | case1 => cases taken
  | case2 => cases taken
  | case3 bound read cs x left one more another ih =>
    have spent := paid _ _ _ one
    have sign := skip_cons_le another
    have later := ih taken
    omega
  | case4 bound read cs x left one more closed =>
    cases taken
    have spent := paid _ _ _ one
    have sign := skip_cons_le closed
    omega
  | case5 => cases taken

theorem pairWeight_le (paid : PaidBy item) {sign : Char} {key : String} {x : Json}
    {cs ds es fs gs rest : List Char} (opened : skip cs = '\x22' :: ds)
    (named : stringRest [] ds = some (key, es)) (colon : skip es = ':' :: fs)
    (valued : item fs = some (x, gs)) (ended : skip gs = sign :: rest) :
    pairWeight (key, x) + utf8Len rest ≤ utf8Len cs := by
  have quote := skip_cons_le opened
  have name := escaped_le_of_stringRest named
  have point := skip_cons_le colon
  have value := paid _ _ _ valued
  have last := skip_cons_le ended
  rw [List.flatMap_nil, String.utf8Len_nil] at name
  rw [pairWeight]
  omega

theorem le_of_members (paid : PaidBy item) {bound : Nat} {read ms : List (String × Json)}
    {cs rest : List Char} (taken : members item bound read cs = some (ms, rest)) :
    memberWeight ms + utf8Len rest ≤ memberWeight read + utf8Len cs := by
  fun_induction members item bound read cs with
  | case1 => cases taken
  | case2 => cases taken
  | case3 => cases taken
  | case4 bound read cs ds opened key es named fs colon x gs valued left another ih =>
    have pair := pairWeight_le paid opened named colon valued another
    have later := ih taken
    rw [memberWeight] at later
    omega
  | case5 bound read cs ds opened key es named fs colon x gs valued left closed =>
    cases taken
    have pair := pairWeight_le paid opened named colon valued closed
    rw [memberWeight_reverse, memberWeight]
    omega
  | case6 => cases taken
  | case7 => cases taken
  | case8 => cases taken

theorem literal_suffix {word cs rest : List Char} {x j : Json}
    (taken : literal word x cs = some (j, rest)) : rest <:+ cs ∧ j = x := by
  unfold literal at taken
  split at taken
  · cases taken
    exact ⟨List.drop_suffix _ _, rfl⟩
  · cases taken

theorem paidBy_scalar : PaidBy scalar := by
  have word {spelled cs rest : List Char} {x j : Json}
      (taken : literal spelled x cs = some (j, rest)) (light : weight x = 0) :
      weight j + utf8Len rest ≤ utf8Len cs := by
    obtain ⟨inside, rfl⟩ := literal_suffix taken
    rw [light, Nat.zero_add]
    exact String.utf8Len_le_of_suffix inside
  intro cs j rest taken
  unfold scalar at taken
  split at taken
  · exact word taken rfl
  · exact word taken rfl
  · exact word taken rfl
  · next left =>
    obtain ⟨⟨s, behind⟩, string, same⟩ := Option.map_eq_some_iff.mp taken
    cases same
    have paid := escaped_le_of_stringRest string
    have quote : Char.utf8Size '\x22' = 1 := rfl
    rw [List.flatMap_nil, String.utf8Len_nil] at paid
    rw [weight, String.utf8Len_cons]
    omega
  · obtain ⟨inside, plain⟩ := number_suffix taken
    rw [plain.weight, Nat.zero_add]
    exact String.utf8Len_le_of_suffix inside

theorem paidBy_value (depth : Nat) : PaidBy (value depth) := by
  -- Items and members are read one level below the list or the object that holds them.
  induction depth with
  | zero =>
    intro cs j rest taken
    exact Nat.le_trans (paidBy_scalar _ _ _ taken) (utf8Len_skip_le cs)
  | succ depth ih =>
    intro cs j rest taken
    rw [value] at taken
    split at taken
    · next ds opened =>
      have bracket := skip_cons_le opened
      split at taken
      · next left closed =>
        cases taken
        have other := skip_cons_le closed
        rw [weight]
        · omega
        all_goals intros; contradiction
      · obtain ⟨⟨xs, behind⟩, listed, same⟩ := Option.map_eq_some_iff.mp taken
        cases same
        have paid := le_of_items ih listed
        rw [weight]
        · omega
        all_goals intros; contradiction
    · next ds opened =>
      have brace := skip_cons_le opened
      split at taken
      · next left closed =>
        cases taken
        have other := skip_cons_le closed
        rw [weight, memberWeight]
        omega
      · obtain ⟨⟨ms, behind⟩, listed, same⟩ := Option.map_eq_some_iff.mp taken
        cases same
        have paid := le_of_members ih listed
        have light := weight_record ms
        rw [memberWeight] at paid
        omega
    · exact Nat.le_trans (paidBy_scalar _ _ _ taken) (utf8Len_skip_le cs)

theorem weight_le_of_readWithin {depth : Nat} {s : String} {j : Json}
    (read : readWithin depth s = some j) : weight j ≤ s.utf8ByteSize := by
  unfold readWithin at read
  split at read
  · next k rest taken =>
    split at read
    · cases read
      have paid := paidBy_value depth _ _ _ taken
      rw [String.utf8Len_toList] at paid
      omega
    · cases read
  · cases read

theorem sum_pairWeight_le (found ms : List (String × Json))
    (different : (found.map Prod.fst).Nodup) (there : ∀ m ∈ found, ms.lookup m.1 = some m.2) :
    (found.map pairWeight).sum ≤ memberWeight ms := by
  have inside : found ⊆ ms := by
    intro m member
    obtain ⟨before, after, split, -⟩ := List.lookup_eq_some_iff.mp (there m member)
    rw [split]
    exact List.mem_append_right _ List.mem_cons_self
  -- The keys differ, so these members are a part of the list in another order.
  obtain ⟨part, same, sublist⟩ := (List.Nodup.of_map _ different).subperm inside
  rw [memberWeight_eq, ← (same.map pairWeight).sum_eq]
  exact (sublist.map pairWeight).sum_le_sum fun _ _ => Nat.zero_le _

theorem pairWeight_le_of_lookup {key : String} {x : Json} {ms : List (String × Json)}
    (found : ms.lookup key = some x) : pairWeight (key, x) ≤ memberWeight ms := by
  have one := sum_pairWeight_le [(key, x)] ms (List.nodup_singleton _)
    (List.forall_mem_singleton.mpr found)
  simpa using one

/-! ### Written values -/

theorem utf8ByteSize_render (j : Json) : j.render.utf8ByteSize = utf8Len j.chars := by
  rw [render, String.utf8ByteSize_ofList]

theorem utf8Len_pairChars (key : String) (x : Json) :
    utf8Len (pairChars (key, x)) = escaped key + 3 + utf8Len x.chars := by
  have colon : Char.utf8Size ':' = 1 := rfl
  rw [pairChars, String.utf8Len_append, utf8Len_quoted, String.utf8Len_cons]
  omega

theorem utf8Len_memberChars_le (ms : List (String × Json)) :
    utf8Len (memberChars ms) ≤ (ms.map fun m => utf8Len (pairChars m) + 1).sum := by
  have comma : Char.utf8Size ',' = 1 := rfl
  induction ms with
  | nil => exact Nat.le_refl 0
  | cons m ms ih =>
    rw [List.map_cons, List.sum_cons]
    cases ms with
    | nil =>
      rw [memberChars]
      omega
    | cons n ms =>
      rw [memberChars, String.utf8Len_append, String.utf8Len_cons]
      · omega
      · exact List.cons_ne_nil n ms

theorem utf8Len_record_le (ms : List (String × Json)) :
    utf8Len (record ms).chars ≤ 2 + (ms.map fun m => utf8Len (pairChars m) + 1).sum := by
  have braces : Char.utf8Size '\x7b' = 1 ∧ Char.utf8Size '\x7d' = 1 := ⟨rfl, rfl⟩
  have most := utf8Len_memberChars_le (inOrder ms)
  have sorted := sum_inOrder (fun m => utf8Len (pairChars m) + 1) ms
  rw [record_eq, chars, String.utf8Len_append, String.utf8Len_cons, String.utf8Len_cons,
    String.utf8Len_nil]
  omega

theorem toList_toString (n : Int) : (toString n).toList = intChars n := by
  cases n with
  | ofNat n =>
    have positive : ¬ Int.ofNat n < 0 := Int.not_lt.mpr (Int.natCast_nonneg n)
    rw [intChars, if_neg positive]
    exact String.toList_ofList
  | negSucc n =>
    have negative : Int.negSucc n < 0 := Int.negSucc_lt_zero n
    rw [intChars, if_pos negative]
    exact (String.toList_append ..).trans (congrArg _ String.toList_ofList)

end ScreenPreview.Json
