import Mathlib.Data.Finset.Max
import SchemaAtlas.Proofs.Reachability
import SchemaAtlas.Graph.Order

namespace SchemaAtlas
namespace DependencyGraph

-- The order that stands when all that is in progress is left at once. Leaving a name
-- does not change it, entering one puts it between what is left and the stack.
def Traversal.line (t : Traversal) : List String := t.left ++ t.stack.map Frame.name

-- An edge is in order when its target stands first. Otherwise the target reaches
-- everything from the source up to itself, so the edge closes a cycle.
def Ordered (g : DependencyGraph) (order : List String) (source target : String) : Prop :=
  Before order target source ∨ ∀ name ∈ order, order.idxOf source ≤ order.idxOf name →
    order.idxOf name ≤ order.idxOf target → name = target ∨ g.Reaches target name

-- The stack is a path of the graph from its bottom to its top, and what is entered is
-- what is in progress or left.
structure Shaped (g : DependencyGraph) (t : Traversal) : Prop where
  nodup : t.line.Nodup
  entered : ∀ name, name ∈ t.entered ↔ name ∈ t.line
  chain : (t.stack.map Frame.name).IsChain fun upper lower => g.Edge lower upper
  pending : ∀ f ∈ t.stack, ∀ name ∈ f.pending, g.Edge f.name name
  known : ∀ name ∈ t.line, name ∈ g.names

def Followed (g : DependencyGraph) (t : Traversal) (source target : String) : Prop :=
  (∃ f ∈ t.stack, f.name = source ∧ target ∈ f.pending) ∨
    (target ∈ t.line ∧ g.Ordered t.line source target)

structure Sound (g : DependencyGraph) (t : Traversal) : Prop extends Shaped g t where
  followed : ∀ source target, source ∈ t.line → g.Edge source target → g.Followed t source target

variable {g : DependencyGraph} {t after : Traversal}

theorem sound_initial : g.Sound {} := by
  refine ⟨⟨List.nodup_nil, by simp [Traversal.line], .nil, by simp, by simp [Traversal.line]⟩, ?_⟩
  intro source target listed
  cases listed

theorem idxOf_line_left (left : name ∈ t.left) : t.line.idxOf name < t.left.length := idxOf_mem_front left

theorem idxOf_line_stack (inProgress : name ∉ t.left) : t.left.length ≤ t.line.idxOf name :=
  idxOf_not_mem_front inProgress

theorem chain_reaches {names : List String} (chain : names.IsChain fun upper lower => g.Edge lower upper)
    (upper : a ∈ names) (lower : b ∈ names) (above : names.idxOf a ≤ names.idxOf b) : a = b ∨ g.Reaches b a := by
  have pairs : names.Pairwise fun upper lower => g.Reaches lower upper :=
    List.pairwise_reverse.mp (chain_pairwise (List.isChain_reverse.mpr chain))
  rcases Nat.lt_or_eq_of_le above with earlier | same
  · right
    have path := List.pairwise_iff_getElem.mp pairs _ _ (List.idxOf_lt_length_of_mem upper)
      (List.idxOf_lt_length_of_mem lower) earlier
    simpa only [List.getElem_idxOf] using path
  · exact .inl ((List.idxOf_inj upper).mp same)

theorem Shaped.apart (shaped : g.Shaped t) (inProgress : name ∈ t.stack.map Frame.name) : name ∉ t.left :=
  fun left => (List.nodup_append.mp shaped.nodup).2.2 name left name inProgress rfl

theorem Shaped.reaches_above (shaped : g.Shaped t) (inProgress : source ∈ t.stack.map Frame.name)
    (target_in : target ∈ t.stack.map Frame.name) (listed : name ∈ t.line)
    (from_ : t.line.idxOf source ≤ t.line.idxOf name) (upTo : t.line.idxOf name ≤ t.line.idxOf target) :
    name = target ∨ g.Reaches target name := by
  have outside : name ∉ t.left := by
    intro inside
    have less := idxOf_line_left inside
    have more := idxOf_line_stack (shaped.apart inProgress)
    omega
  have name_in : name ∈ t.stack.map Frame.name := (List.mem_append.mp listed).resolve_left outside
  refine chain_reaches shaped.chain name_in target_in ?_
  unfold Traversal.line at upTo
  rw [List.idxOf_append_of_notMem outside, List.idxOf_append_of_notMem (shaped.apart target_in)] at upTo
  omega

theorem Shaped.ordered_back (shaped : g.Shaped t) (source_in : source ∈ t.stack.map Frame.name)
    (target_in : target ∈ t.stack.map Frame.name) : g.Ordered t.line source target :=
  .inr fun _ listed => shaped.reaches_above source_in target_in listed

-- A name that is entered is new, follows from the top of the stack, and is all that
-- some names in progress still had to follow.
structure Enterable (g : DependencyGraph) (t : Traversal) (new : String) : Prop extends Shaped g t where
  fresh : new ∉ t.line
  declared : new ∈ g.names
  reached : ∀ top ∈ (t.stack.map Frame.name).head?, g.Edge top new
  followed : ∀ source target, source ∈ t.line → g.Edge source target →
    g.Followed t source target ∨ (target = new ∧ source ∈ t.stack.map Frame.name)

theorem line_enter (g : DependencyGraph) (t : Traversal) (new : String) :
    (g.enter t new).line = t.left ++ new :: t.stack.map Frame.name := rfl

theorem mem_line_enter : name ∈ (g.enter t new).line ↔ name = new ∨ name ∈ t.line := by
  rw [line_enter, Traversal.line, List.mem_append, List.mem_append, List.mem_cons]
  tauto

theorem idxOf_enter_lt (a_old : a ≠ new) (b_old : b ≠ new) :
    (g.enter t new).line.idxOf a < (g.enter t new).line.idxOf b ↔ t.line.idxOf a < t.line.idxOf b := by
  rw [line_enter, idxOf_insert a_old, idxOf_insert b_old]
  change (if a ∈ t.left then t.line.idxOf a else t.line.idxOf a + 1) <
    (if b ∈ t.left then t.line.idxOf b else t.line.idxOf b + 1) ↔ _
  by_cases a_left : a ∈ t.left <;> by_cases b_left : b ∈ t.left <;> simp only [a_left, b_left, if_true, if_false]
  · have := idxOf_line_left a_left
    have := idxOf_line_stack b_left
    omega
  · have := idxOf_line_stack a_left
    have := idxOf_line_left b_left
    omega
  · omega

theorem Enterable.old (enterable : g.Enterable t new) (listed : name ∈ t.line) : name ≠ new :=
  fun same => enterable.fresh (same ▸ listed)

theorem Enterable.reached_new (enterable : g.Enterable t new) (inProgress : name ∈ t.stack.map Frame.name) :
    g.Reaches name new := by
  have chain := enterable.chain
  have reached := enterable.reached
  cases same : t.stack.map Frame.name with
  | nil => rw [same] at inProgress; cases inProgress
  | cons top below =>
    rw [same] at chain reached inProgress
    have edge := reached top rfl
    rcases chain_reaches chain List.mem_cons_self inProgress (by simp) with rfl | path
    · exact .edge edge
    · exact path.snoc edge

theorem ordered_enter (enterable : g.Enterable t new) (source_in : source ∈ t.line) (target_in : target ∈ t.line)
    (ordered : g.Ordered t.line source target) : g.Ordered (g.enter t new).line source target := by
  rcases ordered with before | between
  · left
    exact ⟨mem_line_enter.mpr (.inr source_in),
      (idxOf_enter_lt (enterable.old target_in) (enterable.old source_in)).mpr before.2⟩
  · right
    intro name listed from_ upTo
    by_cases isNew : name = new
    · subst isNew
      right
      apply enterable.reached_new
      refine (List.mem_append.mp target_in).resolve_left fun left => ?_
      rw [line_enter, idxOf_insert_new (fun inside => enterable.fresh (List.mem_append_left _ inside)),
        List.idxOf_append_of_mem left] at upTo
      have := List.idxOf_lt_length_of_mem left
      omega
    · have name_in := (mem_line_enter.mp listed).resolve_left isNew
      apply between name name_in
      · have keeps := idxOf_enter_lt (g := g) (t := t) isNew (enterable.old source_in)
        omega
      · have keeps := idxOf_enter_lt (g := g) (t := t) (enterable.old target_in) isNew
        omega

theorem Enterable.shaped_enter (enterable : g.Enterable t new) : g.Shaped (g.enter t new) := by
  refine ⟨?_, ?_, ?_, ?_, ?_⟩
  · rw [line_enter]
    exact List.nodup_middle.mpr (List.nodup_cons.mpr ⟨enterable.fresh, enterable.nodup⟩)
  · intro name
    rw [mem_line_enter, ← enterable.entered]
    exact List.mem_cons
  · exact List.isChain_cons.mpr ⟨enterable.reached, enterable.chain⟩
  · intro f listed
    rcases List.mem_cons.mp listed with rfl | old
    · exact fun _ inside => inside
    · exact enterable.pending f old
  · intro name listed
    rcases mem_line_enter.mp listed with rfl | old
    · exact enterable.declared
    · exact enterable.known name old

theorem Enterable.sound_enter (enterable : g.Enterable t new) : g.Sound (g.enter t new) := by
  refine ⟨enterable.shaped_enter, ?_⟩
  intro source target listed edge
  rcases mem_line_enter.mp listed with rfl | source_in
  · exact .inl ⟨_, List.mem_cons_self, rfl, edge⟩
  · rcases enterable.followed source target source_in edge with (⟨f, framed, at_⟩ | ⟨target_in, ordered⟩) | ⟨rfl, inProgress⟩
    · exact .inl ⟨f, List.mem_cons_of_mem _ framed, at_⟩
    · exact .inr ⟨mem_line_enter.mpr (.inr target_in), ordered_enter enterable source_in target_in ordered⟩
    -- The edge that led to the new name: its source is still on the stack.
    · refine .inr ⟨mem_line_enter.mpr (.inl rfl), .inl ⟨listed, ?_⟩⟩
      have outside : source ∉ t.left := enterable.apart inProgress
      rw [line_enter, idxOf_insert_new (fun inside => enterable.fresh (List.mem_append_left _ inside)),
        idxOf_insert (enterable.old source_in), if_neg outside]
      exact Nat.lt_succ_of_le (idxOf_line_stack outside)

theorem shaped_follow (sound : g.Sound ⟨entered, ⟨name, next :: pending⟩ :: below, left⟩) :
    g.Shaped ⟨entered, ⟨name, pending⟩ :: below, left⟩ := by
  refine ⟨sound.nodup, sound.entered, sound.chain, ?_, sound.known⟩
  intro f framed
  rcases List.mem_cons.mp framed with rfl | older
  · exact fun other inside => sound.pending _ List.mem_cons_self other (List.mem_cons_of_mem _ inside)
  · exact sound.pending f (List.mem_cons_of_mem _ older)

theorem followed_follow (sound : g.Sound ⟨entered, ⟨name, next :: pending⟩ :: below, left⟩) {source target : String}
    (listed : source ∈ Traversal.line ⟨entered, ⟨name, pending⟩ :: below, left⟩) (edge : g.Edge source target) :
    g.Followed ⟨entered, ⟨name, pending⟩ :: below, left⟩ source target ∨ (target = next ∧ source = name) := by
  rcases sound.followed source target listed edge with ⟨f, framed, at_, waits⟩ | settled
  · rcases List.mem_cons.mp framed with rfl | older
    · rcases List.mem_cons.mp waits with rfl | later
      · exact .inr ⟨rfl, at_.symm⟩
      · exact .inl (.inl ⟨_, List.mem_cons_self, at_, later⟩)
    · exact .inl (.inl ⟨f, List.mem_cons_of_mem _ older, at_, waits⟩)
  · exact .inl (.inr settled)

theorem ordered_top (shaped : g.Shaped ⟨entered, ⟨name, pending⟩ :: below, left⟩)
    (target_in : target ∈ Traversal.line ⟨entered, ⟨name, pending⟩ :: below, left⟩) :
    g.Ordered (Traversal.line ⟨entered, ⟨name, pending⟩ :: below, left⟩) name target := by
  have name_in : name ∈ Traversal.line ⟨entered, ⟨name, pending⟩ :: below, left⟩ :=
    List.mem_append_right _ List.mem_cons_self
  rcases List.mem_append.mp target_in with target_left | inProgress
  · have outside : name ∉ left := fun inside =>
      (List.nodup_append.mp shaped.nodup).2.2 name inside name List.mem_cons_self rfl
    exact .inl ⟨name_in, Nat.lt_of_lt_of_le (idxOf_mem_front target_left) (idxOf_not_mem_front outside)⟩
  · exact shaped.ordered_back List.mem_cons_self inProgress

theorem step_sound (closed : g.Closed) (sound : g.Sound t) (checked : g.step t = some after) : g.Sound after := by
  obtain ⟨entered, stack, left⟩ := t
  unfold step at checked
  split at checked
  · cases checked
  -- A name is left: the line stays as it is.
  · rename_i name below same
    cases Option.some.inj checked
    subst same
    have line : Traversal.line ⟨entered, below, left ++ [name]⟩ =
        Traversal.line ⟨entered, ⟨name, []⟩ :: below, left⟩ := by simp [Traversal.line]
    refine ⟨⟨line ▸ sound.nodup, line ▸ sound.entered, sound.chain.tail, ?_, line ▸ sound.known⟩, ?_⟩
    · exact fun f inside => sound.pending f (List.mem_cons_of_mem _ inside)
    · intro source target listed edge
      rcases sound.followed source target (line ▸ listed) edge with ⟨f, framed, at_, waits⟩ | settled
      · rcases List.mem_cons.mp framed with rfl | older
        · cases waits
        · exact .inl ⟨f, older, at_, waits⟩
      · right
        rw [line]
        exact settled
  · rename_i name next pending below same
    cases Option.some.inj checked
    subst same
    have shaped := shaped_follow sound
    dsimp only
    split
    -- An edge into a name that is in the line.
    · rename_i old
      have target_in := (shaped.entered next).mp (by simpa using old)
      refine ⟨shaped, ?_⟩
      intro source target listed edge
      rcases followed_follow sound listed edge with done | ⟨rfl, rfl⟩
      · exact done
      · exact .inr ⟨target_in, ordered_top shaped target_in⟩
    -- An edge into a name that is new.
    · rename_i new
      have edge := sound.pending _ List.mem_cons_self next List.mem_cons_self
      refine Enterable.sound_enter ⟨shaped, ?_, closed _ _ edge, ?_, ?_⟩
      · exact fun inside => new (by simpa using (shaped.entered next).mpr inside)
      · intro top isTop
        cases Option.some.inj isTop
        exact edge
      · intro source target listed edge
        rcases followed_follow sound listed edge with done | ⟨rfl, rfl⟩
        · exact .inl done
        · exact .inr ⟨rfl, List.mem_cons_self⟩

theorem step_entered (checked : g.step t = some after) (old : name ∈ t.entered) : name ∈ after.entered := by
  unfold step at checked
  split at checked
  · cases checked
  · cases Option.some.inj checked
    exact old
  · cases Option.some.inj checked
    split
    · exact old
    · exact List.mem_cons_of_mem _ old

theorem step_none (stopped : g.step t = none) : t.stack = [] := by
  unfold step at stopped
  split at stopped
  · rename_i same
    exact same
  · cases stopped
  · cases stopped

theorem settle_sound (closed : g.Closed) (sound : g.Sound t) : g.Sound (g.settle t) := by
  fun_induction settle g t with
  | case1 t stopped => exact sound
  | case2 t after checked ih => exact ih (step_sound closed sound checked)

theorem settle_idle (g : DependencyGraph) (t : Traversal) : (g.settle t).stack = [] := by
  fun_induction settle g t with
  | case1 t stopped => exact step_none stopped
  | case2 t after checked ih => exact ih

theorem settle_entered (old : name ∈ t.entered) : name ∈ (g.settle t).entered := by
  fun_induction settle g t with
  | case1 t stopped => exact old
  | case2 t after checked ih => exact ih (step_entered checked old)

structure Idle (g : DependencyGraph) (t : Traversal) : Prop extends Sound g t where
  idle : t.stack = []

theorem Idle.line (idle : g.Idle t) : t.line = t.left := by
  simp [Traversal.line, idle.idle]

theorem start_idle (closed : g.Closed) (idle : g.Idle t) (declared : name ∈ g.names) : g.Idle (g.start t name) := by
  unfold start
  split
  · exact idle
  · rename_i new
    have enterable : g.Enterable t name := by
      refine ⟨idle.toShaped, ?_, declared, ?_, ?_⟩
      · exact fun inside => new (by simpa using (idle.entered name).mpr inside)
      · simp [idle.idle]
      · exact fun source target listed edge => .inl (idle.followed source target listed edge)
    exact ⟨settle_sound closed enterable.sound_enter, settle_idle g _⟩

theorem start_entered (g : DependencyGraph) (t : Traversal) (name : String) : name ∈ (g.start t name).entered := by
  unfold start
  split
  · rename_i old
    simpa using old
  · exact settle_entered List.mem_cons_self

theorem start_keeps (old : other ∈ t.entered) : other ∈ (g.start t name).entered := by
  unfold start
  split
  · exact old
  · exact settle_entered (List.mem_cons_of_mem _ old)

theorem starts_idle (closed : g.Closed) (starts : List String) (declared : ∀ name ∈ starts, name ∈ g.names)
    (idle : g.Idle t) : g.Idle (starts.foldl g.start t) ∧
      ∀ name, name ∈ starts ∨ name ∈ t.entered → name ∈ (starts.foldl g.start t).entered := by
  induction starts generalizing t with
  | nil => exact ⟨idle, by simp⟩
  | cons first rest ih =>
    obtain ⟨after, all⟩ := ih (fun name inside => declared name (List.mem_cons_of_mem _ inside))
      (start_idle closed idle (declared first List.mem_cons_self))
    refine ⟨after, ?_⟩
    rintro name (inside | old)
    · rcases List.mem_cons.mp inside with rfl | later
      · exact all name (.inr (start_entered g t name))
      · exact all name (.inl later)
    · exact all name (.inr (start_keeps old))

theorem traverse_idle (closed : g.Closed) : g.Idle g.traverse :=
  (starts_idle closed g.names (fun _ inside => inside) ⟨sound_initial, rfl⟩).1

theorem topologicalOrder_line (closed : g.Closed) : g.topologicalOrder = g.traverse.line :=
  (traverse_idle closed).line.symm

theorem mem_topologicalOrder (closed : g.Closed) : name ∈ g.topologicalOrder ↔ name ∈ g.names := by
  obtain ⟨idle, all⟩ := starts_idle closed g.names (fun _ inside => inside) ⟨sound_initial, rfl⟩
  rw [topologicalOrder_line closed]
  exact ⟨idle.known name, fun declared => (idle.entered name).mp (all name (.inl declared))⟩

theorem topologicalOrder_nodup (closed : g.Closed) : g.topologicalOrder.Nodup := by
  rw [topologicalOrder_line closed]
  exact (traverse_idle closed).nodup

theorem topologicalOrder_perm (closed : g.Closed) (distinct : g.names.Nodup) : g.topologicalOrder.Perm g.names :=
  (List.perm_ext_iff_of_nodup (topologicalOrder_nodup closed) distinct).mpr fun _ => mem_topologicalOrder closed

theorem edge_declared (edge : g.Edge source target) : source ∈ g.names := by
  by_contra unknown
  unfold Edge at edge
  rw [dependencies_unknown g unknown] at edge
  cases edge

theorem topologicalOrder_ordered (closed : g.Closed) (edge : g.Edge source target) :
    g.Ordered g.topologicalOrder source target := by
  have idle := traverse_idle closed
  have listed := (mem_topologicalOrder closed).mpr (edge_declared edge)
  rw [topologicalOrder_line closed] at listed ⊢
  rcases idle.followed source target listed edge with ⟨f, framed, _⟩ | ⟨_, ordered⟩
  · rw [idle.idle] at framed
    cases framed
  · exact ordered

theorem before_of_edge (closed : g.Closed) (edge : g.Edge source target) (apart : ¬ g.Reaches target source) :
    Before g.topologicalOrder target source := by
  have source_in := (mem_topologicalOrder closed).mpr (edge_declared edge)
  by_contra notBefore
  have forward : g.topologicalOrder.idxOf source ≤ g.topologicalOrder.idxOf target :=
    Nat.le_of_not_lt fun less => notBefore ⟨source_in, less⟩
  rcases topologicalOrder_ordered closed edge with before | between
  · exact notBefore before
  · rcases between source source_in (Nat.le_refl _) forward with same | path
    · subst same
      exact apart (.edge edge)
    · exact apart path

theorem exists_last {order : List String} (listed : name ∈ order) : ∃ last ∈ order, g.Together name last ∧
    ∀ other ∈ order, g.Together name other → order.idxOf other ≤ order.idxOf last := by
  classical
  obtain ⟨last, chosen, greatest⟩ := (order.toFinset.filter (g.Together name)).exists_max_image
    (order.idxOf ·) ⟨name, by simp [listed, Together]⟩
  simp only [Finset.mem_filter, List.mem_toFinset] at chosen greatest
  exact ⟨last, chosen.1, chosen.2, fun other inside together => greatest other ⟨inside, together⟩⟩

theorem reached_by_last (closed : g.Closed) (last_in : last ∈ g.topologicalOrder) (together : g.Together name last)
    (greatest : ∀ other ∈ g.topologicalOrder, g.Together name other →
      g.topologicalOrder.idxOf other ≤ g.topologicalOrder.idxOf last) (path : g.Reaches last target) :
    g.topologicalOrder.idxOf target ≤ g.topologicalOrder.idxOf last := by
  refine (path.carries (P := fun x => (x = last ∨ g.Reaches last x) ∧
    g.topologicalOrder.idxOf x ≤ g.topologicalOrder.idxOf last) ?_ ⟨.inl rfl, Nat.le_refl _⟩).2
  rintro x y ⟨reached, left⟩ edge
  have onward : g.Reaches last y := by
    rcases reached with rfl | path
    · exact .edge edge
    · exact path.snoc edge
  refine ⟨.inr onward, ?_⟩
  by_contra later
  rcases topologicalOrder_ordered closed edge with before | between
  · have := before.2
    omega
  · rcases between last last_in left (by omega) with same | back
    · subst same
      omega
    · -- The edge ends at a name that reaches the last member, so it is a later one.
      have member : g.Together name y := by
        rcases together with rfl | ⟨there, here⟩
        · exact .inr ⟨onward, back⟩
        · exact .inr ⟨there.trans onward, back.trans here⟩
      exact later (greatest y ((mem_topologicalOrder closed).mpr (closed _ _ edge)) member)

-- Groups of names that reach one another, each taken at its last member, stand in the
-- order of their dependencies: where `u` reaches `v` but not back, the whole group of
-- `v` is left before the group of `u` is.
theorem before_last_of_group (closed : g.Closed) (path : g.Reaches u v) (apart : ¬ g.Reaches v u) :
    ∃ last, g.Together u last ∧ ∀ w, g.Together v w → Before g.topologicalOrder w last := by
  have declared : u ∈ g.names := by
    cases path with
    | edge first => exact edge_declared first
    | step first _ => exact edge_declared first
  obtain ⟨last, last_in, together, greatest⟩ := exists_last (g := g) ((mem_topologicalOrder closed).mpr declared)
  refine ⟨last, together, fun w same => ⟨last_in, ?_⟩⟩
  have onward : g.Reaches last v := path.from_together together
  have reached : g.Reaches last w := onward.to_together same
  refine Nat.lt_of_le_of_ne (reached_by_last closed last_in together greatest reached) fun equal => apart ?_
  -- If the last name of the one group were in the other, the groups would be the same.
  have w_in := (mem_topologicalOrder closed).mpr (closed.reaches reached)
  cases (List.idxOf_inj w_in).mp equal
  rcases same with rfl | ⟨there, _⟩
  · exact onward.to_together together.symm
  · exact there.to_together together.symm

end DependencyGraph

theorem topologicalSort_order (map : Entries (List String)) (distinct : map.Distinct) :
    (topologicalSort map).Perm map.keys ∧
    (∀ u v, v ∈ (map.get? u).getD [] → v ∈ map.keys → ¬ (DependencyGraph.ofMap map).Reaches v u →
      Before (topologicalSort map) v u) ∧
    (∀ u v, (DependencyGraph.ofMap map).Reaches u v → ¬ (DependencyGraph.ofMap map).Reaches v u →
      ∃ last, (DependencyGraph.ofMap map).Together u last ∧
        ∀ w, (DependencyGraph.ofMap map).Together v w → Before (topologicalSort map) w last) ∧
    ((∀ n, ¬ (DependencyGraph.ofMap map).OnCycle n) →
      ∀ u v, v ∈ (map.get? u).getD [] → v ∈ map.keys → Before (topologicalSort map) v u) := by
  have closed := DependencyGraph.closed_ofMap map
  have perm := DependencyGraph.topologicalOrder_perm closed ((DependencyGraph.names_ofMap map).symm ▸ distinct)
  rw [DependencyGraph.names_ofMap] at perm
  have edges : ∀ u v, v ∈ (map.get? u).getD [] → v ∈ map.keys → ¬ (DependencyGraph.ofMap map).Reaches v u →
      Before (topologicalSort map) v u := fun u v listed known apart =>
    DependencyGraph.before_of_edge closed (DependencyGraph.edge_ofMap.mpr ⟨listed, known⟩) apart
  refine ⟨perm, edges, fun u v path apart => DependencyGraph.before_last_of_group closed path apart, ?_⟩
  intro acyclic u v listed known
  refine edges u v listed known fun back => acyclic u ?_
  exact .step (DependencyGraph.edge_ofMap.mpr ⟨listed, known⟩) back

def ringAndLoop : Entries (List String) := [("A", ["B", "C", "Missing"]), ("B", ["A"]), ("C", ["C"])]

theorem topologicalSort_order_ring : ringAndLoop.Distinct ∧
    (topologicalSort ringAndLoop).Perm ["A", "B", "C"] ∧ Before (topologicalSort ringAndLoop) "C" "A" ∧
    ∃ last, (DependencyGraph.ofMap ringAndLoop).Together "A" last ∧
      ∀ w, (DependencyGraph.ofMap ringAndLoop).Together "C" w → Before (topologicalSort ringAndLoop) w last := by
  have distinct : ringAndLoop.Distinct := by unfold Entries.Distinct; decide
  have apart : ¬ (DependencyGraph.ofMap ringAndLoop).Reaches "C" "A" := fun path =>
    absurd (path.stays ["C"] (by decide) (by decide)) (by decide)
  have edge : (DependencyGraph.ofMap ringAndLoop).Edge "A" "C" := by unfold DependencyGraph.Edge; decide
  obtain ⟨perm, edges, groups, _⟩ := topologicalSort_order ringAndLoop distinct
  exact ⟨distinct, perm, edges "A" "C" (by decide) (by decide) apart, groups "A" "C" (.edge edge) apart⟩

end SchemaAtlas
