import Mathlib.Data.List.Induction
import ScreenPreview.Proofs.Screen.Sizes
import ScreenPreview.Proofs.Server.Answers

/-!
What requests change of the geometry.

Three commands do. Whatever else is asked, the sizes after any requests are those after the changes
that were accepted (`geometry_afterAll`). A new display size does not move the current size, so on a
device that is not folded the two agree exactly if the last display size that was given, and not
followed by a fold status, was the current size already (`current_eq_display_iff`).
-/
namespace ScreenPreview

/-! ### Sizes under the changes of commands -/

def Screen.Resolution.Unfolded (r : Resolution) : Prop :=
  r.foldable = false ∨ r.foldStatus ≠ .fold ∨ r.fold.isPositive = false

namespace Screen.Geometry

def Change.Ordered (g : Geometry) : Change → Prop
  | sizes display compression => display.isPositive = true ∧ compression.isPositive = true
  | reverse => True
  | applyFold _ => g.resolution.foldable = true
  | _ => False

/-- The last display size that was given, and only turned since, was the current size when it
came. -/
def Renamed (g : Geometry) (changes : List Change) : Prop :=
  ∀ before display compression turns,
    changes = before ++ .sizes display compression :: turns →
    (∀ change ∈ turns, change = .reverse) → (g.run before).resolution.current = display

variable {g : Geometry} {changes : List Change}

theorem run_concat (g : Geometry) (changes : List Change) (change : Change) :
    g.run (changes ++ [change]) = (g.run changes).perform change := by
  rw [run, List.foldl_append]
  rfl

theorem split_concat {before turns : List Change} {last at_split : Change}
    (split : changes ++ [last] = before ++ at_split :: turns) :
    (turns = [] ∧ before = changes ∧ at_split = last) ∨
      ∃ rest, turns = rest ++ [last] ∧ changes = before ++ at_split :: rest := by
  rcases List.eq_nil_or_concat turns with rfl | ⟨rest, turn, rfl⟩
  · obtain ⟨rfl, same⟩ := List.append_inj' split rfl
    exact Or.inl ⟨rfl, rfl, (List.singleton_inj.mp same).symm⟩
  · rw [List.concat_eq_append, ← List.cons_append, ← List.append_assoc] at split
    obtain ⟨rfl, same⟩ := List.append_inj' split rfl
    rw [List.singleton_inj.mp same]
    exact Or.inr ⟨rest, List.concat_eq_append, rfl⟩

theorem renamed_concat {last : Change} (no_turn : last ≠ .reverse) :
    g.Renamed (changes ++ [last]) ↔ ∀ display compression, last = .sizes display compression →
      (g.run changes).resolution.current = display := by
  constructor
  · rintro renamed display compression rfl
    exact renamed changes display compression [] rfl (by simp)
  · intro same before display compression turns split only
    rcases split_concat split with ⟨rfl, rfl, sizes⟩ | ⟨rest, rfl, -⟩
    · exact same display compression sizes.symm
    · exact absurd (only last (by simp)) no_turn

theorem renamed_reverse : g.Renamed (changes ++ [.reverse]) ↔ g.Renamed changes := by
  constructor
  · intro renamed before display compression turns split only
    refine renamed before display compression (turns ++ [.reverse]) (by simp [split]) ?_
    intro change member
    rcases List.mem_append.mp member with turn | last
    · exact only change turn
    · exact List.mem_singleton.mp last
  · intro renamed before display compression turns split only
    rcases split_concat split with ⟨-, -, sizes⟩ | ⟨rest, rfl, rfl⟩
    · cases sizes
    · exact renamed before display compression rest rfl fun change member =>
        only change (List.mem_append_left _ member)

/-! ### One change -/

theorem perform_sizes {display compression : Size}
    (ordered : (Change.sizes display compression).Ordered g) :
    g.perform (.sizes display compression) =
      { g with resolution := { g.resolution with display, compression } } := by
  rw [perform, attempt, setSizes_of_positive ordered]

theorem fold_perform {change : Change} (ordered : change.Ordered g) :
    (g.perform change).resolution.foldable = g.resolution.foldable ∧
      (g.perform change).resolution.fold = g.resolution.fold := by
  cases change with
  | sizes display compression =>
    rw [perform_sizes ordered]
    exact ⟨rfl, rfl⟩
  | reverse => exact ⟨rfl, rfl⟩
  | applyFold status =>
    have same : (g.perform (.applyFold status)).resolution = g.resolution.applyFold status := rfl
    rw [same, Resolution.applyFold]
    dsimp only
    split
    · exact ⟨rfl, rfl⟩
    · split <;> exact ⟨rfl, rfl⟩
  | _ => cases ordered

theorem Change.Ordered.of_foldable {h : Geometry} {change : Change} (ordered : change.Ordered g)
    (same : h.resolution.foldable = g.resolution.foldable) : change.Ordered h := by
  cases change with
  | applyFold status => exact same.trans ordered
  | _ => exact ordered

theorem fold_run (ordered : ∀ change ∈ changes, change.Ordered g) :
    (g.run changes).resolution.foldable = g.resolution.foldable ∧
      (g.run changes).resolution.fold = g.resolution.fold := by
  induction changes using List.reverseRecOn with
  | nil => exact ⟨rfl, rfl⟩
  | append_singleton changes change ih =>
    obtain ⟨foldable, fold⟩ := ih fun earlier member =>
      ordered earlier (List.mem_append_left _ member)
    have here : change.Ordered (g.run changes) := (ordered change (by simp)).of_foldable foldable
    rw [run_concat, (fold_perform here).1, (fold_perform here).2]
    exact ⟨foldable, fold⟩

theorem current_applyFold {status : FoldStatus} (foldable : g.resolution.foldable = true)
    (unfolded : (g.perform (.applyFold status)).resolution.Unfolded) :
    (g.perform (.applyFold status)).resolution.current =
      (g.perform (.applyFold status)).resolution.display := by
  have same : (g.perform (.applyFold status)).resolution = g.resolution.applyFold status := rfl
  rw [same] at unfolded ⊢
  simp only [Resolution.applyFold, foldable, Bool.not_true, Bool.false_eq_true, if_false]
    at unfolded ⊢
  split
  · rename_i folds
    simp [folds, Resolution.Unfolded] at unfolded
  · rfl

/-! ### Many changes -/

/-- On a device that is not folded the current size is the display size exactly if the last display
size that was given, and only turned since, was the current size when it came. -/
theorem current_run (fresh : g.resolution.current = g.resolution.display)
    (ordered : ∀ change ∈ changes, change.Ordered g)
    (unfolded : (g.run changes).resolution.Unfolded) :
    (g.run changes).resolution.current = (g.run changes).resolution.display ↔
      g.Renamed changes := by
  induction changes using List.reverseRecOn with
  | nil =>
    refine iff_of_true fresh ?_
    intro before display compression turns split
    simp at split
  | append_singleton changes change ih =>
    have earlier : ∀ earlier ∈ changes, earlier.Ordered g := fun earlier member =>
      ordered earlier (List.mem_append_left _ member)
    have here : change.Ordered (g.run changes) :=
      (ordered change (by simp)).of_foldable (fold_run earlier).1
    rw [run_concat] at unfolded ⊢
    cases change with
    | sizes display compression =>
      rw [renamed_concat (by simp), perform_sizes here]
      simp
    | reverse =>
      rw [renamed_reverse, ← ih earlier unfolded]
      have turned : ((g.run changes).perform .reverse).resolution =
        (g.run changes).resolution.reverse := rfl
      have swapped {a b : Size} : a.swap = b.swap ↔ a = b := by
        constructor
        · intro same
          exact congrArg Size.swap same
        · rintro rfl
          rfl
      rw [turned]
      exact swapped
    | applyFold status =>
      refine iff_of_true (current_applyFold here unfolded) ?_
      exact (renamed_concat (by simp)).mpr (by simp)
    | _ => cases here

end Screen.Geometry

namespace Server

open Control Screen

/-! ### Commands -/

namespace Preview

def sizesOrder? (c : Command) : Option Geometry.Change :=
  match sizes c with
  | .ok (display, compression) =>
    if display.isPositive && compression.isPositive then some (.sizes display compression) else none
  | .error _ => none

def foldOrder? (c : Command) (s : Preview) : Option Geometry.Change :=
  if s.feed.geometry.resolution.foldable then
    (wordArg c "foldStatus" FoldStatus.ofName).toOption.map .applyFold
  else none

def order? (c : Command) (s : Preview) : Option Geometry.Change :=
  if c.kind = .set ∧ c.name = "Resolution" then sizesOrder? c
  else if c.kind = .action ∧ c.name = "Rotate" then some .reverse
  else if c.kind = .set ∧ c.name = "FoldStatus" then foldOrder? c s
  else none

/-- Everything that a command can do to the geometry and to the wire buffer. -/
inductive Ordered (order : Option Geometry.Change) (s t : Preview) : Prop
  | kept (none : order = none) (geometry : t.feed.geometry = s.feed.geometry)
    (outlet : t.feed.outlet = s.feed.outlet) (settings : t.feed.settings = s.feed.settings)
  | changed (change : Geometry.Change) (some : order = some change)
    (ordered : change.Ordered s.feed.geometry)
    (geometry : t.feed.geometry = s.feed.geometry.perform change)
    (outlet : t.feed.outlet = s.feed.outlet.resize t.feed.roomNow)
    (settings : t.feed.settings = s.feed.settings)

variable {m : Moment} {c : Command} {h : Handler Preview} {s : Preview}

theorem ordered_changeSizes (m : Moment) (c : Command) (s : Preview) :
    Ordered (sizesOrder? c) s (changeSizes m c s).2 := by
  rw [sizesOrder?, changeSizes]
  cases sizes c with
  | error refusal => exact .kept rfl rfl rfl rfl
  | ok pair =>
    obtain ⟨display, compression⟩ := pair
    dsimp only
    by_cases positive : display.isPositive = true ∧ compression.isPositive = true
    · have performed := Geometry.perform_sizes (g := s.feed.geometry) positive
      rw [Geometry.setSizes_of_positive positive, ← performed, if_pos (by simpa using positive)]
      exact .changed _ rfl positive rfl rfl rfl
    · obtain ⟨size, refused⟩ := Geometry.setSizes_of_short (g := s.feed.geometry) positive
      rw [refused, if_neg (by simpa using positive)]
      exact .kept rfl rfl rfl rfl

theorem ordered_setFoldStatus (m : Moment) (c : Command) (s : Preview) :
    Ordered (foldOrder? c s) s (setFoldStatus m c s).2 := by
  rw [foldOrder?, setFoldStatus]
  cases wordArg c "foldStatus" FoldStatus.ofName with
  | error refusal => exact .kept (by simp [Except.toOption]) rfl rfl rfl
  | ok status =>
    dsimp only
    split
    · rename_i foldable
      exact .changed (.applyFold status) rfl foldable rfl rfl rfl
    · exact .kept rfl rfl rfl rfl

theorem order?_of_entry {kind : Kind} {name : String} (same : c.kind = kind ∧ c.name = name)
    (others : (kind, name) ∉
      [(Kind.set, "Resolution"), (.action, "Rotate"), (.set, "FoldStatus")]) :
    order? c s = none := by
  obtain ⟨rfl, rfl⟩ := same
  simp only [List.mem_cons, Prod.mk.injEq, List.not_mem_nil, or_false, not_or] at others
  rw [order?, if_neg others.1, if_neg others.2.1, if_neg others.2.2]

theorem ordered_handled (found : (commands m).handler? c.kind c.name = some h) (s : Preview) :
    Ordered (order? c s) s (h c s).2 := by
  have entry := mem_handlers found
  rw [handlers_commands] at entry
  simp only [List.mem_cons, Prod.mk.injEq, List.not_mem_nil, or_false] at entry
  rcases entry with ⟨name, rfl⟩ | ⟨name, rfl⟩ | ⟨name, rfl⟩ | ⟨name, rfl⟩ | ⟨name, rfl⟩ |
    ⟨name, rfl⟩ | ⟨name, rfl⟩ | ⟨name, rfl⟩
  · rw [order?_of_entry name (by decide), putRouter]
    split <;> exact .kept rfl rfl rfl rfl
  · rw [order?_of_entry name (by decide)]
    exact .kept rfl rfl rfl rfl
  · rw [order?_of_entry name (by decide), setLoadState]
    split <;> exact .kept rfl rfl rfl rfl
  · rw [order?_of_entry name (by decide)]
    exact .kept rfl rfl rfl rfl
  · rw [order?_of_entry name (by decide), limitRate]
    split <;> exact .kept rfl rfl rfl rfl
  · have order : order? c s = foldOrder? c s := by simp [order?, name]
    rw [order]
    exact ordered_setFoldStatus m c s
  · have order : order? c s = some .reverse := by simp [order?, name]
    rw [order]
    exact .changed .reverse rfl trivial rfl rfl rfl
  · have order : order? c s = sizesOrder? c := by simp [order?, name]
    rw [order]
    exact ordered_changeSizes m c s

theorem order?_of_dropped (dropped : (commands m).isDropped c.name = true) : order? c s = none := by
  have unlike {name : String} (passes : (commands m).isDropped name = false) : c.name ≠ name := by
    rintro rfl
    rw [passes] at dropped
    cases dropped
  rw [order?, if_neg fun same => unlike rfl same.2, if_neg fun same => unlike rfl same.2,
    if_neg fun same => unlike rfl same.2]

theorem order?_of_unregistered (unknown : (commands m).handler? c.kind c.name = none) :
    order? c s = none := by
  have unlike {kind : Kind} {name : String} {h : Handler Preview}
      (known : (commands m).handler? kind name = some h) : ¬ (c.kind = kind ∧ c.name = name) := by
    rintro ⟨rfl, rfl⟩
    rw [known] at unknown
    cases unknown
  have sizes : (commands m).handler? .set "Resolution" = some (changeSizes m) := rfl
  have turn : (commands m).handler? .action "Rotate" = some (rotate m) := rfl
  have fold : (commands m).handler? .set "FoldStatus" = some (setFoldStatus m) := rfl
  rw [order?, if_neg (unlike sizes), if_neg (unlike turn), if_neg (unlike fold)]

/-! ### Requests -/

def Request.order? (request : Request) (s : Preview) : Option Geometry.Change :=
  match Command.read request.line with
  | .ok c => Preview.order? c s
  | .error _ => none

def Request.carry (request : Request) (s : Preview) : Preview :=
  ((commands request.moment).process request.line request.mode s).2

theorem ordered_carry (request : Request) (s : Preview) :
    Ordered (request.order? s) s (request.carry s) := by
  rw [Request.order?, Request.carry, Registry.process]
  cases Command.read request.line with
  | error refusal => exact .kept rfl rfl rfl rfl
  | ok c =>
    have carried : Ordered (order? c s) s
        ((commands request.moment).dispatch c request.mode s).2 := by
      rw [Registry.dispatch]
      split
      · rename_i dropped
        rw [Bool.and_eq_true] at dropped
        exact .kept (order?_of_dropped dropped.2) rfl rfl rfl
      · cases found : (commands request.moment).handler? c.kind c.name with
        | none => exact .kept (order?_of_unregistered found) rfl rfl rfl
        | some h => exact ordered_handled found s
    dsimp only
    rcases dispatched : (commands request.moment).dispatch c request.mode s with ⟨_ | _ | _, left⟩
    all_goals
      rw [dispatched] at carried
      exact carried

def orders : Preview → List Request → List Geometry.Change
  | _, [] => []
  | s, request :: rest => (request.order? s).toList ++ orders (request.carry s) rest

theorem afterAll_cons (s : Preview) (request : Request) (past : List Request) :
    s.afterAll (request :: past) = (request.carry s).afterAll past := rfl

theorem ordered_orders (s : Preview) (past : List Request) :
    ∀ change ∈ orders s past, change.Ordered s.feed.geometry := by
  induction past generalizing s with
  | nil => simp [orders]
  | cons request rest ih =>
    intro change member
    cases ordered_carry request s with
    | kept none geometry =>
      rw [orders, none, Option.toList_none, List.nil_append] at member
      rw [← geometry]
      exact ih _ change member
    | changed first some ordered geometry =>
      rw [orders, some, Option.toList_some, List.singleton_append, List.mem_cons] at member
      rcases member with rfl | later
      · exact ordered
      · refine (ih _ change later).of_foldable ?_
        rw [geometry, (Geometry.fold_perform ordered).1]

/-- After any requests the geometry is the one after the changes that were accepted. -/
theorem geometry_afterAll (s : Preview) (past : List Request) :
    (s.afterAll past).feed.geometry = s.feed.geometry.run (orders s past) := by
  induction past generalizing s with
  | nil => rfl
  | cons request rest ih =>
    rw [afterAll_cons, ih, orders]
    cases ordered_carry request s with
    | kept none geometry => rw [none, geometry, Option.toList_none, List.nil_append]
    | changed change some ordered geometry =>
      rw [some, geometry, Option.toList_some, List.singleton_append]
      rfl

/-! ### The current size -/

def TellsDisplay (told : List (String × Json)) : Prop :=
  told.lookup "currentWidth" = told.lookup "originalWidth" ∧
    told.lookup "currentHeight" = told.lookup "originalHeight"

theorem tellsDisplay_iff (r : Resolution) : TellsDisplay r.members ↔ r.current = r.display := by
  have told : TellsDisplay r.members ↔
      some (Json.int r.current.width.toInt) = some (.int r.display.width.toInt) ∧
        some (Json.int r.current.height.toInt) = some (.int r.display.height.toInt) := Iff.rfl
  rw [told]
  constructor
  · rintro ⟨width, height⟩
    have width := Int32.toInt_inj.mp (Json.int.inj (Option.some.inj width))
    have height := Int32.toInt_inj.mp (Json.int.inj (Option.some.inj height))
    change Size.mk r.current.width r.current.height = ⟨r.display.width, r.display.height⟩
    rw [width, height]
  · intro same
    rw [same]
    exact ⟨rfl, rfl⟩

/-- After any requests the sizes are those after the changes that were accepted, and `ScreenInfo`
tells them. While the device is not folded, it tells the display size as the current size exactly if
the last display size that was given, and only turned since, was the current size when it came. -/
theorem current_eq_display_iff (c : Config) (now : Int) (past : List Request)
    (unfolded : ((ofConfig c now).afterAll past).feed.geometry.resolution.Unfolded) :
    let start := ofConfig c now
    let s := start.afterAll past
    s.feed.geometry = start.feed.geometry.run (orders start past) ∧
    (∀ m mode line command, Command.read line = .ok command → command.kind = .get →
      command.name = "ScreenInfo" → (commands m).process line mode s =
        (some (reply "ScreenInfo" (.record s.feed.geometry.resolution.members)).render, s)) ∧
    (TellsDisplay s.feed.geometry.resolution.members ↔
      start.feed.geometry.Renamed (orders start past)) := by
  intro start s
  refine ⟨geometry_afterAll start past, ?_, ?_⟩
  · intro m mode line command read kind name
    have passes : (commands m).isDropped "ScreenInfo" = false := rfl
    have known : (commands m).handler? .get "ScreenInfo" = some tellScreen := rfl
    simp only [Registry.process, read, Registry.dispatch, kind, name, passes, known, Bool.and_false,
      Bool.false_eq_true, if_false]
    rfl
  · rw [geometry_afterAll] at unfolded
    rw [tellsDisplay_iff, geometry_afterAll]
    exact Geometry.current_run rfl (ordered_orders start past) unfolded

def newSize : Request where
  moment := ⟨0, 0⟩
  mode := .dynamic
  line := "\x7b\"type\":\"set\",\"command\":\"Resolution\",\"version\":\"1.0.0\",\"args\":" ++
    "\x7b\"originalWidth\":720,\"originalHeight\":1280\x7d\x7d"

def unfoldIt : Request where
  moment := ⟨0, 0⟩
  mode := .dynamic
  line := "\x7b\"type\":\"set\",\"command\":\"FoldStatus\",\"version\":\"1.0.0\",\"args\":" ++
    "\x7b\"foldStatus\":\"unfold\"\x7d\x7d"

def unfoldedSizes : Resolution :=
  ((ofConfig { screen := { foldable := true } } 0).afterAll
    [newSize, unfoldIt]).feed.geometry.resolution

theorem current_eq_display_of_unfolded :
    unfoldedSizes.Unfolded ∧ TellsDisplay unfoldedSizes.members := by
  have ordered : orders (ofConfig { screen := { foldable := true } } 0) [newSize, unfoldIt] =
      [.sizes ⟨720, 1280⟩ ⟨720, 1280⟩] ++ [.applyFold .unfold] := by decide +kernel
  have sizes : unfoldedSizes =
      { display := ⟨720, 1280⟩, compression := ⟨720, 1280⟩, current := ⟨720, 1280⟩
        foldable := true, foldStatus := .unfold } := by
    rw [unfoldedSizes, geometry_afterAll, ordered]
    rfl
  have unfolded : unfoldedSizes.Unfolded := by
    rw [sizes]
    exact Or.inr (Or.inl (by simp))
  have told := (current_eq_display_iff { screen := { foldable := true } } 0 [newSize, unfoldIt]
    unfolded).2.2
  rw [ordered] at told
  exact ⟨unfolded, told.mpr ((Geometry.renamed_concat (by simp)).mpr (by simp))⟩

/-- The current size stays behind when a new display size is given. -/
theorem current_behind_new_size :
    ¬ ∀ (c : Config) (now : Int) (past : List Request),
      ((ofConfig c now).afterAll past).feed.geometry.resolution.Unfolded →
        TellsDisplay ((ofConfig c now).afterAll past).feed.geometry.resolution.members := by
  intro follows
  have ordered : orders (ofConfig {} 0) [newSize] = [.sizes ⟨720, 1280⟩ ⟨720, 1280⟩] := by
    decide +kernel
  have told := follows {} 0 [newSize]
  rw [geometry_afterAll, ordered, tellsDisplay_iff] at told
  exact absurd (told (Or.inl rfl)) (by decide)

end Preview

end Server

end ScreenPreview
