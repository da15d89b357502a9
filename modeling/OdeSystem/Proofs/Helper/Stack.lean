import OdeSystem.Proofs.Helper.Walk

/-!
The stack of a walk. The helpers in progress are those with a frame to be finished on the stack, and read from the
bottom these form a path of the graph: each frame belongs to a dependency of the helper that is to be finished
next below it. A helper is finished only when all its dependencies are, so those that are done are closed under
dependencies, and none of them lies on a cycle.
-/

namespace OdeSystem.Helper

/-- The helper of the uppermost frame to be finished. -/
def nearest? : List Frame → Option String
  | [] => none
  | .finish name :: _ => some name
  | .enter _ :: rest => nearest? rest

/-- Whether each frame belongs to a dependency of the helper that is to be finished next below it. -/
def Linked (helpers : Helpers) : List Frame → Prop
  | [] => True
  | frame :: rest =>
    (∀ helper, nearest? rest = some helper → DependsOn helpers helper frame.name) ∧ Linked helpers rest

/-- What holds of the stack and the marks at every moment. -/
structure Ordered (helpers : Helpers) (walk : Walk) : Prop where
  /-- Every frame is one of a helper. -/
  known : ∀ frame ∈ walk.stack, helpers.contains frame.name = true
  /-- In progress is what is to be finished. -/
  inProgress : ∀ name, walk.marks.get? name = some .inProgress ↔ .finish name ∈ walk.stack
  /-- What is to be finished lies below no other frame of its helper. -/
  once : walk.stack.Pairwise fun upper lower => lower ≠ .finish upper.name
  linked : Linked helpers walk.stack
  /-- The dependencies of what is to be finished are done or lie above it. -/
  pending : ∀ above name below, walk.stack = above ++ .finish name :: below → ∀ d, DependsOn helpers name d →
    walk.marks.get? d = some .done ∨ ∃ frame ∈ above, frame.name = d
  closed : ∀ name, walk.marks.get? name = some .done → ∀ d, DependsOn helpers name d →
    walk.marks.get? d = some .done
  acyclic : ∀ name, walk.marks.get? name = some .done → ¬ OnCycle helpers name

/-! ### Paths on the stack -/

section Paths
variable {helpers : Helpers} {name : String}

theorem nearest?_map_enter_append (pushed : List String) (rest : List Frame) :
    nearest? (pushed.map Frame.enter ++ rest) = nearest? rest := by
  induction pushed with
  | nil => rfl
  | cons d pushed ih => exact ih

theorem Linked.push {pushed : List String} {rest : List Frame} (h : Linked helpers (.finish name :: rest))
    (hfrom : ∀ d ∈ pushed, DependsOn helpers name d) :
    Linked helpers (pushed.map Frame.enter ++ .finish name :: rest) := by
  induction pushed with
  | nil => exact h
  | cons d pushed ih =>
    refine ⟨fun helper hnearest => ?_, ih fun d hd => hfrom d (List.mem_cons_of_mem _ hd)⟩
    obtain rfl : name = helper := by simpa [nearest?_map_enter_append, nearest?] using hnearest
    exact hfrom d (List.mem_cons_self ..)

/-- A path of dependencies leads from each helper to be finished to every frame above it. -/
theorem Linked.path {frame : Frame} {rest : List Frame} (h : Linked helpers (frame :: rest))
    (hmem : .finish name ∈ rest) : Relation.TransGen (DependsOn helpers) name frame.name := by
  induction rest generalizing frame with
  | nil => cases hmem
  | cons next rest ih =>
    obtain ⟨hframe, hnext, hrest⟩ := h
    cases next with
    | enter d => exact ih ⟨hframe, hrest⟩ ((List.mem_cons.mp hmem).resolve_left (by simp))
    | finish lower =>
      have hdepends := hframe lower rfl
      rcases List.mem_cons.mp hmem with heq | hmem
      · cases heq
        exact .single hdepends
      · exact (ih ⟨hnext, hrest⟩ hmem).tail hdepends

/-- Everything that something done depends on is done. -/
theorem Ordered.closed_trans {walk : Walk} (h : Ordered helpers walk) {d : String}
    (hdone : walk.marks.get? name = some .done) (hpath : Relation.TransGen (DependsOn helpers) name d) :
    walk.marks.get? d = some .done := by
  induction hpath with
  | single hd => exact h.closed _ hdone _ hd
  | tail _ hd ih => exact h.closed _ ih _ hd

end Paths

/-! ### Marks and frames of a move -/

section Moves
variable {marks : Table Mark} {name d : String}

theorem get?_insert_inProgress_eq_done (unmarked : marks.get? name = none) :
    (marks.insert name .inProgress).get? d = some .done ↔ marks.get? d = some .done := by
  rw [Table.get?_insert]
  by_cases heq : d = name
  · simp [heq, unmarked]
  · simp [heq]

theorem get?_insert_done_eq_done :
    (marks.insert name .done).get? d = some .done ↔ d = name ∨ marks.get? d = some .done := by
  rw [Table.get?_insert]
  by_cases heq : d = name <;> simp [heq]

/-- What is to be finished on the stack of a helper just entered is that helper, or lies below it. -/
theorem split_entered {pushed : List String} {rest above below : List Frame}
    (h : pushed.map Frame.enter ++ .finish name :: rest = above ++ .finish d :: below) :
    (above = pushed.map Frame.enter ∧ d = name) ∨
      ∃ between, above = pushed.map Frame.enter ++ .finish name :: between ∧
        rest = between ++ .finish d :: below := by
  induction pushed generalizing above with
  | nil =>
    rcases List.cons_eq_append_iff.mp h with ⟨rfl, heq⟩ | ⟨between, rfl, hrest⟩
    · cases heq
      exact .inl ⟨rfl, rfl⟩
    · exact .inr ⟨between, rfl, hrest⟩
  | cons first pushed ih =>
    rcases List.cons_eq_append_iff.mp h with ⟨-, heq⟩ | ⟨above, rfl, hrest⟩
    · cases heq
    · rcases ih hrest with ⟨rfl, hname⟩ | ⟨between, rfl, hbelow⟩
      · exact .inl ⟨rfl, hname⟩
      · exact .inr ⟨between, rfl, hbelow⟩

end Moves

/-! ### Every move keeps the order -/

namespace Ordered
variable {helpers : Helpers} {state : State} {time : Float} {walk next : Walk} {frame : Frame} {rest : List Frame}
  {events moved : List Event}

theorem initial : Ordered helpers Walk.initial where
  known := by simp [Walk.initial]
  inProgress := by simp [Walk.initial]
  once := .nil
  linked := trivial
  pending above name below h := by simp [Walk.initial] at h
  closed := by simp [Walk.initial]
  acyclic := by simp [Walk.initial]

theorem root (h : Ordered helpers walk) (idle : walk.stack = []) {name : String}
    (known : helpers.contains name = true) : Ordered helpers { walk with stack := [.enter name] } where
  known frame hframe := by
    obtain rfl := List.mem_singleton.mp hframe
    exact known
  inProgress other := by
    rw [h.inProgress other, idle]
    simp
  once := List.pairwise_singleton ..
  linked := ⟨fun _ h => (by cases h), trivial⟩
  pending above helper below hsplit := by
    rcases List.append_eq_cons_iff.mp hsplit.symm with ⟨-, heq⟩ | ⟨above', -, heq⟩
    · cases heq
    · simp at heq
  closed := h.closed
  acyclic := h.acyclic

theorem once_cons (h : Ordered helpers walk) (top : walk.stack = frame :: rest) :
    (∀ lower ∈ rest, lower ≠ .finish frame.name) ∧ rest.Pairwise fun upper lower => lower ≠ .finish upper.name := by
  have := h.once
  rw [top] at this
  exact List.pairwise_cons.mp this

theorem linked_cons (h : Ordered helpers walk) (top : walk.stack = frame :: rest) :
    Linked helpers (frame :: rest) := top ▸ h.linked

/-- A frame that leaves the stack without effect: it was of no helper, or of one that is done. -/
theorem drop (h : Ordered helpers walk) (top : walk.stack = frame :: rest)
    (hdone : walk.marks.get? frame.name = some .done) : Ordered helpers { walk with stack := rest } where
  known other hother := h.known other (top ▸ List.mem_cons_of_mem _ hother)
  inProgress name := by
    rw [h.inProgress name, top, List.mem_cons]
    refine ⟨fun hmem => hmem.resolve_left ?_, Or.inr⟩
    rintro rfl
    have := (h.inProgress name).mpr (top ▸ List.mem_cons_self ..)
    simp only [Frame.name] at hdone
    rw [hdone] at this
    cases this
  once := (h.once_cons top).2
  linked := (h.linked_cons top).2
  pending above name below hsplit d hd := by
    rcases h.pending (frame :: above) name below (by rw [top]; exact congrArg _ hsplit) d hd with hd' | ⟨f, hf, rfl⟩
    · exact .inl hd'
    · rcases List.mem_cons.mp hf with rfl | hf
      · exact .inl hdone
      · exact .inr ⟨f, hf, rfl⟩
  closed := h.closed
  acyclic := h.acyclic

/-- What has no mark has no frame to be finished. -/
theorem not_mem_of_unmarked (h : Ordered helpers walk) {d : String} (unmarked : walk.marks.get? d = none) :
    .finish d ∉ walk.stack := fun hmem => by
  rw [(h.inProgress d).mpr hmem] at unmarked
  cases unmarked

theorem once_enter (h : Ordered helpers walk) {name : String} (top : walk.stack = .enter name :: rest)
    {pushed : List String} (unmarked : walk.marks.get? name = none)
    (fresh : ∀ d ∈ pushed, d ≠ name ∧ walk.marks.get? d = none) :
    (pushed.map Frame.enter ++ .finish name :: rest).Pairwise fun upper lower => lower ≠ .finish upper.name := by
  have absent {d : String} (hd : walk.marks.get? d = none) : .finish d ∉ rest := fun hmem =>
    h.not_mem_of_unmarked hd (top ▸ List.mem_cons_of_mem _ hmem)
  refine List.pairwise_append.mpr ⟨?_, List.pairwise_cons.mpr ⟨fun lower hlower => ?_, (h.once_cons top).2⟩, ?_⟩
  · exact List.pairwise_map.mpr (List.pairwise_of_forall fun _ _ => by simp)
  · rintro rfl
    exact absent unmarked hlower
  · intro upper hupper lower hlower
    obtain ⟨d, hd, rfl⟩ := List.mem_map.mp hupper
    obtain ⟨hne, hnone⟩ := fresh d hd
    rcases List.mem_cons.mp hlower with rfl | hlower
    · simpa [Frame.name] using Ne.symm hne
    · rintro rfl
      exact absent hnone hlower

/-- Entering a helper puts its frame to be finished, and above that its dependencies, in the place of the frame
to enter it. -/
theorem enter (h : Ordered helpers walk) {name : String} (top : walk.stack = .enter name :: rest)
    {pushed : List String} (unmarked : walk.marks.get? name = none)
    (fresh : ∀ d ∈ pushed, DependsOn helpers name d ∧ d ≠ name ∧ walk.marks.get? d = none)
    (complete : ∀ d, DependsOn helpers name d → walk.marks.get? d = some .done ∨ d ∈ pushed) :
    Ordered helpers
      { walk with
        marks := walk.marks.insert name .inProgress
        stack := pushed.map Frame.enter ++ .finish name :: rest } where
  known frame hframe := by
    rcases List.mem_append.mp hframe with hframe | hframe
    · obtain ⟨d, hd, rfl⟩ := List.mem_map.mp hframe
      exact (fresh d hd).1.contains_right
    · rcases List.mem_cons.mp hframe with rfl | hframe
      · exact h.known (.enter name) (top ▸ List.mem_cons_self ..)
      · exact h.known frame (top ▸ List.mem_cons_of_mem _ hframe)
  inProgress d := by
    have hinProgress := h.inProgress d
    rw [top] at hinProgress
    rw [Table.get?_insert]
    by_cases heq : d = name
    · simp [heq]
    · simpa [heq] using hinProgress
  once := h.once_enter top unmarked fun d hd => (fresh d hd).2
  linked := by
    have hlinked := h.linked_cons top
    exact Linked.push ⟨hlinked.1, hlinked.2⟩ fun d hd => (fresh d hd).1
  pending above d below hsplit d' hd' := by
    simp only [get?_insert_inProgress_eq_done unmarked]
    -- What is below was waiting for the helper itself, if for anything that has left the stack.
    rcases split_entered hsplit with ⟨rfl, rfl⟩ | ⟨between, rfl, hrest⟩
    · refine (complete d' hd').imp_right fun hmem => ?_
      exact ⟨.enter d', List.mem_map_of_mem hmem, rfl⟩
    · refine (h.pending (.enter name :: between) d below (by rw [top, hrest]; rfl) d' hd').imp_right ?_
      rintro ⟨frame, hframe, rfl⟩
      rcases List.mem_cons.mp hframe with rfl | hframe
      · exact ⟨.finish name, List.mem_append_right _ (List.mem_cons_self ..), rfl⟩
      · exact ⟨frame, List.mem_append_right _ (List.mem_cons_of_mem _ hframe), rfl⟩
  closed d hd d' hd' := by
    rw [get?_insert_inProgress_eq_done unmarked] at hd ⊢
    exact h.closed d hd d' hd'
  acyclic d hd := h.acyclic d ((get?_insert_inProgress_eq_done unmarked).mp hd)

/-- What is on top to be finished has only dependencies that are done. -/
theorem ready (h : Ordered helpers walk) {name : String} (top : walk.stack = .finish name :: rest) {d : String}
    (hd : DependsOn helpers name d) : walk.marks.get? d = some .done := by
  rcases h.pending [] name rest top d hd with hdone | ⟨frame, hframe, -⟩
  · exact hdone
  · cases hframe

/-- Nor does it lie on a cycle, which would lead back to it through what is done, while it is in progress. -/
theorem not_onCycle (h : Ordered helpers walk) {name : String} (top : walk.stack = .finish name :: rest) :
    ¬ OnCycle helpers name := by
  have hmark : walk.marks.get? name = some .inProgress := (h.inProgress name).mpr (top ▸ List.mem_cons_self ..)
  intro hcycle
  obtain ⟨d, hd, hpath⟩ := Relation.TransGen.head'_iff.mp hcycle
  have hdone : walk.marks.get? name = some .done := by
    rcases Relation.reflTransGen_iff_eq_or_transGen.mp hpath with heq | hpath
    · exact heq ▸ h.ready top hd
    · exact h.closed_trans (h.ready top hd) hpath
  rw [hmark] at hdone
  cases hdone

/-- Finishing a helper keeps the order, since its dependencies are done. -/
theorem finish (h : Ordered helpers walk) {name : String} (top : walk.stack = .finish name :: rest)
    (values : HelperValues) :
    Ordered helpers { values, marks := walk.marks.insert name .done, stack := rest } where
  known frame hframe := h.known frame (top ▸ List.mem_cons_of_mem _ hframe)
  inProgress d := by
    have hbelow : .finish name ∉ rest := fun hmem => (h.once_cons top).1 _ hmem rfl
    have hinProgress := h.inProgress d
    rw [top] at hinProgress
    rw [Table.get?_insert]
    by_cases heq : d = name
    · simp [heq, hbelow]
    · simpa [heq] using hinProgress
  once := (h.once_cons top).2
  linked := (h.linked_cons top).2
  pending above d below hsplit d' hd' := by
    rw [get?_insert_done_eq_done]
    rcases h.pending (.finish name :: above) d below (by rw [top]; exact congrArg _ hsplit) d' hd' with
      hdone | ⟨frame, hframe, rfl⟩
    · exact .inl (.inr hdone)
    · rcases List.mem_cons.mp hframe with rfl | hframe
      · exact .inl (.inl rfl)
      · exact .inr ⟨frame, hframe, rfl⟩
  closed d hd d' hd' := by
    rw [get?_insert_done_eq_done] at hd ⊢
    rcases hd with rfl | hd
    · exact .inr (h.ready top hd')
    · exact .inr (h.closed d hd d' hd')
  acyclic d hd := by
    rcases get?_insert_done_eq_done.mp hd with rfl | hd
    · exact h.not_onCycle top
    · exact h.acyclic d hd

theorem move (h : Ordered helpers walk) (top : walk.stack = frame :: rest)
    (hm : Moves helpers state time { walk with stack := rest } frame next moved) : Ordered helpers next := by
  cases hm with
  | foreign foreign =>
    have := h.known frame (top ▸ List.mem_cons_self ..)
    rw [foreign] at this
    cases this
  | skip done => exact h.drop top done
  | enter pushed found unmarked fresh complete => exact h.enter top unmarked fresh complete
  | finish found evaluated => exact h.finish top _

end Ordered

theorem Reachable.ordered {helpers : Helpers} {state : State} {time : Float} {events : List Event} {walk : Walk}
    (h : Reachable helpers state time events walk) : Ordered helpers walk := by
  induction h with
  | initial => exact .initial
  | root name _ idle known _ ih => exact ih.root idle known
  | move _ top moves ih => exact ih.move top moves

end OdeSystem.Helper
