import Mathlib
import Toolpath.Playback.Backing
import Toolpath.Proofs.Playback.Queries
import Toolpath.Proofs.Playback.Step

/-! Histories that share lists are as good as values. A list is only ever extended, so each snapshot
stays a beginning of the list that it is cut from, whatever is appended to it or to others later. A
collection of histories and playback states over shared lists therefore reads, after any operations
in any order, as the same collection over values. -/
namespace Toolpath

namespace Backing
variable {π : Type} {b c d : Backing π} {h k : Snapshot} {item : π}

/-- The list of a snapshot is there and holds at least its items. -/
def Holds (b : Backing π) (h : Snapshot) : Prop :=
  ∃ items, b.lists[h.list]? = some items ∧ h.length ≤ items.length

/-- Every list is still there and begins as it was. -/
def Grows (b c : Backing π) : Prop :=
  ∀ (place : Nat) (items : List π), b.lists[place]? = some items →
    ∃ more, c.lists[place]? = some (items ++ more)

theorem Grows.refl (b : Backing π) : b.Grows b := fun _ items found => ⟨[], by simpa using found⟩

theorem Grows.trans (first : b.Grows c) (second : c.Grows d) : b.Grows d := by
  intro place items found
  obtain ⟨more, found⟩ := first place items found
  obtain ⟨others, found⟩ := second place _ found
  exact ⟨more ++ others, by rw [found, List.append_assoc]⟩

theorem Grows.holds (grows : b.Grows c) (holds : b.Holds h) : c.Holds h := by
  obtain ⟨items, found, enough⟩ := holds
  obtain ⟨more, found⟩ := grows _ _ found
  exact ⟨items ++ more, found, by rw [List.length_append]; omega⟩

theorem listOf_eq {items : List π} (found : b.lists[h.list]? = some items) : b.listOf h = items := by
  rw [listOf, List.getD_eq_getElem?_getD, found, Option.getD_some]

/-- What a list is given later lies behind the snapshots that were cut from it. -/
theorem Grows.iterate (grows : b.Grows c) (holds : b.Holds h) : c.iterate h = b.iterate h := by
  obtain ⟨items, found, enough⟩ := holds
  obtain ⟨more, grown⟩ := grows _ _ found
  rw [Backing.iterate, Backing.iterate, listOf_eq found, listOf_eq grown,
    List.take_append_of_le_length enough]

theorem Grows.read (grows : b.Grows c) (holds : b.Holds h) : c.read h = b.read h := by
  rw [Backing.read, grows.iterate holds, ← Backing.read]

theorem Holds.length (holds : b.Holds h) : (b.iterate h).length = h.length := by
  obtain ⟨items, found, enough⟩ := holds
  rw [iterate, listOf_eq found, List.length_take, Nat.min_eq_left enough]

/-! A new list, and one item more. -/

theorem lists_push (items : List π) : b.Grows ⟨b.lists ++ [items]⟩ := by
  intro place old found
  have inside := (List.getElem?_eq_some_iff.mp found).1
  exact ⟨[], by rw [List.getElem?_append_left inside, found, List.append_nil]⟩

theorem begin_grows (items : List π) : b.Grows (b.begin items).1 := lists_push items

theorem begin_found (items : List π) :
    (b.begin items).1.lists[(b.begin items).2.list]? = some items :=
  List.getElem?_concat_length

theorem begin_holds (items : List π) : (b.begin items).1.Holds (b.begin items).2 :=
  ⟨items, begin_found items, le_rfl⟩

theorem read_begin (items : List π) : (b.begin items).1.read (b.begin items).2 = .ofList items := by
  rw [read, iterate, listOf_eq (begin_found items)]
  exact congrArg History.ofList List.take_length

theorem append_grows (h : Snapshot) (item : π) : b.Grows (b.append h item).1 := by
  unfold append
  split
  · intro place items found
    rw [List.getElem?_modify, found]
    by_cases here : h.list = place
    · exact ⟨[item], by simp [here]⟩
    · exact ⟨[], by simp [here]⟩
  · exact lists_push _

/-- The list that a longer history is cut from. -/
theorem append_found (holds : b.Holds h) :
    (b.append h item).1.lists[(b.append h item).2.list]? = some (b.iterate h ++ [item]) := by
  obtain ⟨items, found, enough⟩ := holds
  have list := listOf_eq found
  unfold append
  split
  · -- the longest history of its list: all items are its own
    rename_i longest
    rw [list] at longest
    rw [List.getElem?_modify, found, iterate, list, longest, List.take_length]
    simp
  · exact List.getElem?_concat_length

theorem append_length (h : Snapshot) (item : π) : (b.append h item).2.length = h.length + 1 := by
  unfold append
  split <;> rfl

theorem append_holds (holds : b.Holds h) : (b.append h item).1.Holds (b.append h item).2 := by
  refine ⟨_, append_found holds, ?_⟩
  rw [append_length, List.length_append, holds.length, List.length_singleton]

theorem read_append (holds : b.Holds h) :
    (b.append h item).1.read (b.append h item).2 = (b.read h).append item := by
  have whole : (b.append h item).2.length = (b.iterate h ++ [item]).length := by
    rw [append_length, List.length_append, holds.length, List.length_singleton]
  rw [read, iterate, listOf_eq (append_found holds), whole, List.take_length,
    ← History.toList_ofList (b.iterate h), ← read, ← History.toList_append, History.ofList_toList]

/-- Two histories that continue the same one do not disturb each other. -/
example :
    let (b, base) := Backing.empty.begin [1]
    let (b, newer) := b.append base 2
    let (b, branch) := b.append base 9
    (b.iterate base, b.iterate newer, b.iterate branch) = ([1], [1, 2], [1, 9]) := by decide

/-! Queries. -/

/-- The snapshot answers as the plain list of its items. -/
structure Answers (b : Backing π) (h : Snapshot) (items : List π) : Prop where
  length : h.length = items.length
  iterate : b.iterate h = items
  backwards : b.backwards h = .ok items.reverse
  inside : ∀ place (_ : place < items.length),
    b.get h place = .ok items[place] ∧ b.get h (place - items.length) = .ok items[place]
  outside : ∀ position : Int, position < -items.length ∨ items.length ≤ position →
    b.get h position = .error .waypointOutOfRange
  slice : ∀ first last step, b.slice h first last step =
    if step.getD 1 = 0 then .error .zeroSliceStep
    else .ok (History.sliceItems items first last (step.getD 1))
  contains : ∀ same item, b.contains same h item = true ↔ ∃ p ∈ items, same p item = true
  count : ∀ same item, b.count same h item = items.countP (same · item)
  sameAs : ∀ same others, b.sameAs same h others = true ↔
    List.Forall₂ (fun p q => same p q = true) items others

theorem get_eq (holds : b.Holds h) {position : Int} {place : Nat} (inside : place < (b.iterate h).length)
    (stands : Position.place? h.length position = some place) :
    b.get h position = .ok (b.iterate h)[place] := by
  have short := holds.length
  have found : (b.listOf h)[place]? = some (b.iterate h)[place] := by
    rw [← List.getElem?_eq_getElem inside, iterate, List.getElem?_take_of_lt (by omega)]
  rw [get, stands, Option.bind_some, found]

theorem get_outside {position : Int} (nowhere : Position.place? h.length position = none) :
    b.get h position = .error .waypointOutOfRange := by
  rw [get, nowhere, Option.bind_none]

theorem mapM_ok {α β : Type} {f : α → Except Fault β} {items : List α} {results : List β}
    (each : List.Forall₂ (fun item result => f item = .ok result) items results) :
    items.mapM f = .ok results := by
  induction each with
  | nil => rfl
  | cons first _ ih =>
    rw [List.mapM_cons, first, ih]
    rfl

theorem backwards_eq (holds : b.Holds h) : b.backwards h = .ok (b.iterate h).reverse := by
  have length := holds.length
  apply mapM_ok
  rw [List.forall₂_reverse_iff, List.forall₂_iff_get]
  refine ⟨by rw [List.length_range, length], ?_⟩
  intro place inRange inside
  have below : place < h.length := by simpa using inRange
  rw [List.get_eq_getElem, List.get_eq_getElem, List.getElem_range]
  exact get_eq holds inside (History.place?_front below)

theorem all_zip_iff {same : π → π → Bool} {items others : List π} :
    (items.length == others.length && (items.zip others).all fun (p, q) => same p q) = true ↔
      List.Forall₂ (fun p q => same p q = true) items others := by
  rw [List.forall₂_iff_zip, Bool.and_eq_true, beq_iff_eq, List.all_eq_true]
  exact and_congr_right fun _ => ⟨fun all p q member => all (p, q) member,
    fun all pair member => all member⟩

/-- Every query is one of the plain list. -/
theorem answers (holds : b.Holds h) : b.Answers h (b.iterate h) where
  length := holds.length.symm
  iterate := rfl
  backwards := backwards_eq holds
  inside place inside := by
    have length := holds.length
    refine ⟨get_eq holds inside (History.place?_front (by omega)), ?_⟩
    rw [length]
    exact get_eq holds inside (History.place?_back (by omega))
  outside position outside := by
    rw [holds.length] at outside
    exact get_outside (History.place?_outside outside)
  slice first last step := by
    rw [slice, History.slice_eq, read, History.toList_ofList]
  contains same item := by rw [contains, List.any_eq_true]
  count same item := rfl
  sameAs same others := by
    rw [sameAs, ← holds.length]
    exact all_zip_iff

/-- The snapshot answers as its value does. -/
structure Mirrors (b : Backing π) (h : Snapshot) (value : History π) : Prop where
  length : h.length = value.length
  iterate : b.iterate h = value.toList
  get : ∀ position, b.get h position = value.get position
  slice : ∀ first last step, b.slice h first last step = value.slice first last step
  sameAs : ∀ same others, b.sameAs same h others = History.sameItems same value.toList others

theorem Holds.read_length (holds : b.Holds h) : (b.read h).length = h.length := by
  rw [← History.length_toList, read, History.toList_ofList, holds.length]

theorem mirrors (holds : b.Holds h) : b.Mirrors h (b.read h) where
  length := holds.read_length.symm
  iterate := (History.toList_ofList _).symm
  get position := by
    rw [get, History.get, holds.read_length]
    cases stands : Position.place? h.length position with
    | none => rfl
    | some place =>
      have inside := Position.place?_lt stands
      have found : (b.read h).items[place]? = (b.listOf h)[place]? := by
        rw [read, History.ofList, List.getElem?_toArray, iterate, List.getElem?_take_of_lt inside]
      cases item : (b.listOf h)[place]? <;> simp only [Option.bind_some, found, item]
  slice _ _ _ := rfl
  sameAs same others := by
    rw [Bool.eq_iff_iff, History.sameItems_iff, read, History.toList_ofList]
    exact (answers holds).sameAs same others

/-! Playback states. -/

section States
variable {α : Type} {b : Backing (Waypoint α)} {s : PlaybackState α Snapshot}

/-- A playback state with its history as a value. -/
def readState (b : Backing (Waypoint α)) (s : PlaybackState α Snapshot) : PlaybackState α :=
  s.withHistory (b.read s.history)

theorem Grows.readState {c : Backing (Waypoint α)} (grows : b.Grows c) (holds : b.Holds s.history) :
    c.readState s = b.readState s := by
  rw [Backing.readState, grows.read holds, ← Backing.readState]

/-- What a tick comes to is carried out alike over shared lists and over values. -/
theorem after_shared (holds : b.Holds s.history) (total : Nat) (advance : Advance α) :
    let made := s.after .shared b total advance
    b.Grows made.1 ∧ made.1.Holds made.2.history ∧
      made.1.readState made.2 = ((b.readState s).after .values () total advance).2 := by
  cases advance with
  | rest => exact ⟨.refl b, holds, rfl⟩
  | finish => exact ⟨.refl b, holds, rfl⟩
  | travel x y => exact ⟨.refl b, holds, rfl⟩
  | arrive target =>
    refine ⟨append_grows _ _, append_holds holds, ?_⟩
    have grown := @read_append _ _ _ (.ofMove target) holds
    exact congrArg (fun history => (b.readState s).arrive target total history) grown

variable [Scalar α] [Metric α]

/-- A tick reads the history of its state at no other place than its own, and in the same way at any
later time. -/
theorem stepIn_shared (holds : b.Holds s.history) (moves : List (Move α)) (pace : Pace α) :
    (s.stepIn .shared b moves pace).map (fun made => made.1.readState made.2) =
      (b.readState s).step moves pace := by
  have decided : (b.readState s).advance moves pace = s.advance moves pace := rfl
  rw [PlaybackState.step, PlaybackState.stepIn, PlaybackState.stepIn, decided]
  cases s.advance moves pace with
  | error fault => rfl
  | ok advance => exact congrArg Except.ok (after_shared holds moves.length advance).2.2

end States

end Backing

/-! Collections. -/

/-- Histories and playback states that have been obtained, in order, and what holds the histories. -/
structure Retained (σ η α : Type) where
  store : σ
  histories : List η
  states : List (PlaybackState α η)

namespace Retained
variable {σ η α : Type}

/-- What can be done with what has been obtained so far; places count in the order of obtaining. -/
inductive Operation (α : Type) where
  | begin (points : List (Waypoint α))
  | append (history : Nat) (point : Waypoint α)
  /-- A playback state with a history of its choice. -/
  | state (history : Nat) (fields : PlaybackState α Unit)
  | step (state : Nat) (moves : List (Move α)) (pace : Pace α)

def addHistory (r : Retained σ η α) (made : σ × η) : Retained σ η α :=
  { r with store := made.1, histories := r.histories ++ [made.2] }

/-- A state brings its history along. -/
def addState (r : Retained σ η α) (made : σ × PlaybackState α η) : Retained σ η α :=
  { store := made.1, histories := r.histories ++ [made.2.history], states := r.states ++ [made.2] }

def perform [Scalar α] [Metric α] (keeping : Keeping σ η (Waypoint α)) (r : Retained σ η α) :
    Operation α → Except Fault (Retained σ η α)
  | .begin points => .ok (r.addHistory (keeping.begin r.store points))
  | .append place point =>
    match r.histories[place]? with
    | none => .error .noSuchHistory
    | some h => .ok (r.addHistory (keeping.append r.store h point))
  | .state place fields =>
    match r.histories[place]? with
    | none => .error .noSuchHistory
    | some h => .ok (r.addState (r.store, fields.withHistory h))
  | .step place moves pace =>
    match r.states[place]? with
    | none => .error .noSuchHistory
    | some s => (s.stepIn keeping r.store moves pace).map r.addState

/-- After all operations, of which those with a fault leave everything as it was. -/
def performAll [Scalar α] [Metric α] (keeping : Keeping σ η (Waypoint α)) (r : Retained σ η α)
    (operations : List (Operation α)) : Retained σ η α :=
  operations.foldl (fun r operation => (r.perform keeping operation).toOption.getD r) r

/-! Over shared lists as over values. -/

section Shared
variable {r t : Retained (Backing (Waypoint α)) Snapshot α}

/-- The collection with all its histories as values. -/
def read (r : Retained (Backing (Waypoint α)) Snapshot α) : Retained Unit (History (Waypoint α)) α where
  store := ()
  histories := r.histories.map r.store.read
  states := r.states.map r.store.readState

/-- The lists hold the items of all histories. -/
structure Kept (r : Retained (Backing (Waypoint α)) Snapshot α) : Prop where
  histories : ∀ h ∈ r.histories, r.store.Holds h
  states : ∀ s ∈ r.states, r.store.Holds s.history

/-- `t` has what `r` has, as it was, and more. -/
structure Continues (r t : Retained (Backing (Waypoint α)) Snapshot α) : Prop where
  kept : t.Kept
  grows : r.store.Grows t.store
  histories : r.histories <+: t.histories
  states : r.states <+: t.states

theorem Continues.refl (kept : r.Kept) : r.Continues r :=
  ⟨kept, .refl _, List.prefix_refl _, List.prefix_refl _⟩

theorem Continues.trans {u : Retained (Backing (Waypoint α)) Snapshot α} (first : r.Continues t)
    (second : t.Continues u) : r.Continues u :=
  ⟨second.kept, first.grows.trans second.grows, first.histories.trans second.histories,
    first.states.trans second.states⟩

theorem Kept.grown (kept : r.Kept) {store : Backing (Waypoint α)} (grows : r.store.Grows store) :
    Kept { r with store } :=
  ⟨fun h member => grows.holds (kept.histories h member),
    fun s member => grows.holds (kept.states s member)⟩

theorem Kept.read_grown (kept : r.Kept) {store : Backing (Waypoint α)} (grows : r.store.Grows store) :
    ({ r with store } : Retained _ _ _).read = r.read := by
  have histories : r.histories.map store.read = r.histories.map r.store.read :=
    List.map_congr_left fun h member => grows.read (kept.histories h member)
  have states : r.states.map store.readState = r.states.map r.store.readState :=
    List.map_congr_left fun s member => grows.readState (kept.states s member)
  rw [read, histories, states, ← read]

theorem addHistory_continues {made : Backing (Waypoint α) × Snapshot} (kept : r.Kept)
    (grows : r.store.Grows made.1) (holds : made.1.Holds made.2) :
    r.Continues (r.addHistory made) ∧
      (r.addHistory made).read = r.read.addHistory ((), made.1.read made.2) := by
  have grown := kept.grown grows
  refine ⟨⟨⟨?_, grown.states⟩, grows, List.prefix_append _ _, List.prefix_refl _⟩, ?_⟩
  · intro h member
    rcases List.mem_append.mp member with old | new
    · exact grown.histories h old
    · rwa [List.mem_singleton.mp new]
  · rw [addHistory, ← kept.read_grown grows]
    simp [read, addHistory]

theorem addState_continues {made : Backing (Waypoint α) × PlaybackState α Snapshot} (kept : r.Kept)
    (grows : r.store.Grows made.1) (holds : made.1.Holds made.2.history) :
    r.Continues (r.addState made) ∧
      (r.addState made).read = r.read.addState ((), made.1.readState made.2) := by
  have grown := kept.grown grows
  refine ⟨⟨⟨?_, ?_⟩, grows, List.prefix_append _ _, List.prefix_append _ _⟩, ?_⟩
  · intro h member
    rcases List.mem_append.mp member with old | new
    · exact grown.histories h old
    · rwa [List.mem_singleton.mp new]
  · intro s member
    rcases List.mem_append.mp member with old | new
    · exact grown.states s old
    · rwa [List.mem_singleton.mp new]
  · rw [addState, ← kept.read_grown grows]
    simp [read, addState, Backing.readState, PlaybackState.withHistory]

variable [Scalar α] [Metric α]

/-- An operation over shared lists reads as the same operation over values, and leaves what has been
obtained before as it was. -/
theorem perform_shared (kept : r.Kept) (operation : Operation α) :
    (r.perform .shared operation).map read = r.read.perform .values operation ∧
      ∀ t, r.perform .shared operation = .ok t → r.Continues t := by
  have history (place : Nat) : r.read.histories[place]? = r.histories[place]?.map r.store.read :=
    List.getElem?_map
  have state (place : Nat) : r.read.states[place]? = r.states[place]?.map r.store.readState :=
    List.getElem?_map
  cases operation with
  | begin points =>
    obtain ⟨continues, same⟩ :=
      addHistory_continues kept (Backing.begin_grows points) (Backing.begin_holds points)
    rw [Backing.read_begin] at same
    exact ⟨congrArg Except.ok same, by rintro t ⟨⟩; exact continues⟩
  | append place point =>
    simp only [perform, history]
    cases found : r.histories[place]? with
    | none => exact ⟨rfl, by rintro t ⟨⟩⟩
    | some h =>
      have holds := kept.histories h (List.mem_of_getElem? found)
      obtain ⟨continues, same⟩ := addHistory_continues kept (Backing.append_grows h point)
        (Backing.append_holds holds)
      rw [Backing.read_append holds] at same
      exact ⟨congrArg Except.ok same, by rintro t ⟨⟩; exact continues⟩
  | state place fields =>
    simp only [perform, history]
    cases found : r.histories[place]? with
    | none => exact ⟨rfl, by rintro t ⟨⟩⟩
    | some h =>
      have holds := kept.histories h (List.mem_of_getElem? found)
      obtain ⟨continues, same⟩ :=
        @addState_continues _ _ (r.store, fields.withHistory h) kept (.refl _) holds
      exact ⟨congrArg Except.ok same, by rintro t ⟨⟩; exact continues⟩
  | step place moves pace =>
    simp only [perform, state]
    cases found : r.states[place]? with
    | none => exact ⟨rfl, by rintro t ⟨⟩⟩
    | some s =>
      have holds := kept.states s (List.mem_of_getElem? found)
      have decided : (r.store.readState s).advance moves pace = s.advance moves pace := rfl
      simp only [Option.map_some, PlaybackState.stepIn, decided]
      cases s.advance moves pace with
      | error fault => exact ⟨rfl, by rintro t ⟨⟩⟩
      | ok advance =>
        obtain ⟨grows, holds, carried⟩ := Backing.after_shared holds moves.length advance
        obtain ⟨continues, same⟩ := addState_continues kept grows holds
        rw [carried] at same
        exact ⟨congrArg Except.ok same, by rintro t ⟨⟩; exact continues⟩

/-- So does any sequence of operations. -/
theorem performAll_shared (kept : r.Kept) (operations : List (Operation α)) :
    (r.performAll .shared operations).read = r.read.performAll .values operations ∧
      r.Continues (r.performAll .shared operations) := by
  induction operations generalizing r with
  | nil => exact ⟨rfl, .refl kept⟩
  | cons operation rest ih =>
    obtain ⟨same, continues⟩ := perform_shared kept operation
    simp only [performAll, List.foldl_cons] at ih ⊢
    rw [← same]
    cases performed : r.perform .shared operation with
    | error fault => exact ih kept
    | ok t =>
      have continued := continues t performed
      obtain ⟨same, later⟩ := ih continued.kept
      exact ⟨same, continued.trans later⟩

def empty : Retained (Backing (Waypoint α)) Snapshot α := ⟨.empty, [], []⟩

omit [Scalar α] [Metric α] in
theorem empty_kept : (empty : Retained _ _ α).Kept := ⟨by simp [empty], by simp [empty]⟩

/-- Whatever histories have been begun and continued, from whichever earlier ones, and whatever
states have been made with them and ticked: all of it reads as if every history were a value of its
own. A history stays what it was under all later operations and answers every query as its value
and as the plain list of its items; appending gives its items and the new one; and a tick of a retained state gives
at any later time what a tick of its value gives. -/
theorem retained_as_values (operations later : List (Operation α)) :
    let r := empty.performAll .shared operations
    let store := (r.performAll .shared later).store
    r.read = (⟨(), [], []⟩ : Retained Unit (History (Waypoint α)) α).performAll .values operations ∧
      (∀ h ∈ r.histories, store.read h = r.store.read h ∧
        store.Mirrors h (r.store.read h) ∧ store.Answers h (r.store.read h).toList ∧
        ∀ point, (store.append h point).1.read (store.append h point).2 =
          .ofList ((r.store.read h).toList ++ [point])) ∧
      (∀ s ∈ r.states, store.readState s = r.store.readState s ∧
        ∀ moves pace, (s.stepIn .shared store moves pace).map (fun made => made.1.readState made.2) =
          (r.store.readState s).step moves pace) := by
  intro r store
  obtain ⟨same, reached⟩ := performAll_shared (empty_kept (α := α)) operations
  obtain ⟨_, continued⟩ := performAll_shared reached.kept later
  refine ⟨same, ?_, ?_⟩
  · intro h member
    have unchanged := continued.grows.read (reached.kept.histories h member)
    have holds := continued.grows.holds (reached.kept.histories h member)
    rw [← unchanged]
    refine ⟨rfl, Backing.mirrors holds, ?_, ?_⟩
    · rw [Backing.read, History.toList_ofList]
      exact Backing.answers holds
    · intro point
      rw [Backing.read_append holds, ← History.toList_append, History.ofList_toList]
  · intro s member
    have unchanged := continued.grows.readState (reached.kept.states s member)
    have holds := continued.grows.holds (reached.kept.states s member)
    rw [← unchanged]
    exact ⟨rfl, Backing.stepIn_shared holds⟩

end Shared

end Retained

end Toolpath
