import Mathlib.Data.List.Nodup
import Mathlib.Data.List.Shortlex
import TraceAtlas.Object.Tree

/-!
# The nearest container

A search for the container of a frame keeps a queue of objects: it takes the first one, answers it
if it is a container, and otherwise puts the children that the frame may enter behind the others.
`turn` is one turn of that loop and `Ends` says that the loop comes to an end.

Which container is the nearest can be said without any search. A `Route` leads down from an object,
and its turns number the children among their siblings in the order in which they were added. The
answer is the container at the end of the first route, shorter routes before longer ones and equally
long ones turn by turn (`Nearest`).

In a tree that calls have built (`Built`) children are younger than their parents, but for an object
that was added under a reference with the identity that it got itself: it is its own child. If the
search comes to such an object and no container can be reached, the loop does not end (`Endless`).
In all other cases it does, with the answer of `nearestContainer` (`nearestContainer_nearest`).
-/

namespace TraceAtlas.ObjectTree

variable {t : ObjectTree} {frame : UInt32} {n m c start : ObjectNode}

/-! ## Trees that were built -/

/-- Trees that were built from nothing and may have been searched in between. Any reference can be
named as a parent. One that the tree does not know only lends its path, unless it has the identity
of the object that the call is about to add, as a reference of another tree may have: that object is
its own child. -/
inductive Built : ObjectTree → Prop
  | empty (schema : Bool) : Built { schema }
  | root {t : ObjectTree} (built : Built t) (key : String) : Built (t.addRoot key).2
  | child {t : ObjectTree} (built : Built t) (parent : ObjectRef) (key : String)
      (container : Bool) : Built (t.addChild parent key container).2
  | element {t : ObjectTree} (built : Built t) (parent : ObjectRef) (index : UInt32)
      (container : Bool) : Built (t.addElement parent index container).2
  | searched {t : ObjectTree} (built : Built t) : Built { t with queries := t.queries + 1 }

/-- Objects are numbered as they are added, and no parent is younger than its child. -/
structure Numbered (t : ObjectTree) : Prop where
  ids : t.nodes.map (·.object.id) = List.range' 1 t.nodes.length
  older : ∀ n ∈ t.nodes, ∀ id ∈ n.parent, id ≤ n.object.id

theorem Numbered.bounds (h : t.Numbered) (hn : n ∈ t.nodes) :
    1 ≤ n.object.id ∧ n.object.id ≤ t.nodes.length := by
  have hmem : n.object.id ∈ t.nodes.map (·.object.id) := List.mem_map_of_mem hn
  rw [h.ids, List.mem_range'_1, Nat.add_comm] at hmem
  exact ⟨hmem.1, Nat.le_of_lt_succ hmem.2⟩

theorem mem_of_node? {id : ObjectId} (h : t.node? id = some n) :
    n ∈ t.nodes ∧ n.object.id = id :=
  ⟨List.mem_of_find?_eq_some h, by simpa using List.find?_some h⟩

theorem Numbered.node?_eq (h : t.Numbered) (hn : n ∈ t.nodes) : t.node? n.object.id = some n := by
  have hnodup : (t.nodes.map (·.object.id)).Nodup := by
    rw [h.ids]
    exact List.nodup_range'
  cases hfound : t.node? n.object.id with
  | none =>
      have hnone := List.find?_eq_none.mp hfound n hn
      simp at hnone
  | some m =>
      obtain ⟨hm, hid⟩ := mem_of_node? hfound
      exact congrArg some (List.inj_on_of_nodup_map hnodup hm hn hid)

theorem Numbered.insert (h : t.Numbered) (path : CanonicalPath) (container : Bool)
    (parent : Option ObjectId) : (t.insert path container parent).2.Numbered where
  ids := by
    simp only [ObjectTree.insert, List.map_append, h.ids, List.length_append, List.map_singleton,
      List.length_singleton, List.range'_1_concat, nextId, Nat.add_comm]
  older := by
    intro n hn id hid
    rcases List.mem_append.mp hn with hn | hn
    · exact h.older n hn id hid
    · rw [List.mem_singleton] at hn
      subst hn
      obtain ⟨-, hknown⟩ := Option.mem_filter_iff.mp hid
      simp only [Bool.or_eq_true, beq_iff_eq] at hknown
      rcases hknown with rfl | hknown
      · exact Nat.le_refl _
      · obtain ⟨m, hknown⟩ := Option.isSome_iff_exists.mp hknown
        obtain ⟨hm, rfl⟩ := mem_of_node? hknown
        exact Nat.le_succ_of_le (h.bounds hm).2

theorem Built.numbered (h : t.Built) : t.Numbered := by
  induction h with
  | empty schema => exact ⟨rfl, by simp⟩
  | root built key ih => exact ih.insert _ _ _
  | child built parent key container ih => exact ih.insert _ _ _
  | element built parent index container ih => exact ih.insert _ _ _
  | searched built ih => exact ⟨ih.ids, ih.older⟩

theorem mem_of_child (hc : c ∈ t.children n) : c ∈ t.nodes := List.mem_of_mem_filter hc

/-- A search that comes to the object enters it from itself. -/
def Reenters (frame : UInt32) (n : ObjectNode) : Prop :=
  n.parent = some n.object.id ∧ enters frame n n = true

/-- A child that is entered from another object is younger. -/
theorem Numbered.lt_child (h : t.Numbered) (hn : n ∈ t.nodes) (hc : c ∈ t.children n)
    (entered : enters frame n c = true) (others : ¬Reenters frame n) :
    n.object.id < c.object.id := by
  have hparent : c.parent = some n.object.id := by simpa using List.of_mem_filter hc
  refine Nat.lt_of_le_of_ne (h.older c (mem_of_child hc) _ hparent) ?_
  intro hid
  obtain rfl : n = c := by
    have hnode := h.node?_eq hn
    rw [hid, h.node?_eq (mem_of_child hc)] at hnode
    exact (Option.some.inj hnode).symm
  exact others ⟨hparent, entered⟩

/-! ## Routes -/

/-- A route leads from an object to one below it. Each of its turns is the place of a child among its
siblings, in the order in which they were added. Below a stack only the child of the frame may be
turned to. -/
inductive Route (t : ObjectTree) (frame : UInt32) : ObjectNode → List Nat → ObjectNode → Prop
  | here (n : ObjectNode) : Route t frame n [] n
  | down {n c m : ObjectNode} {i : Nat} {path : List Nat} (child : (t.children n)[i]? = some c)
      (stack : n.object.path.last? = some stackKey →
        c.object.path.last? = some (CanonicalPath.indexKey frame.toNat))
      (rest : Route t frame c path m) : Route t frame n (i :: path) m

/-- The turns say where a route leads. -/
theorem Route.unique {path : List Nat} {m' : ObjectNode} (route : t.Route frame n path m)
    (route' : t.Route frame n path m') : m = m' := by
  induction route with
  | here =>
      cases route'
      rfl
  | down child stack rest ih =>
      cases route' with
      | down child' stack' rest' =>
          rw [child] at child'
          cases child'
          exact ih rest'

theorem enters_eq_true_iff : enters frame n c = true ↔ (n.object.path.last? = some stackKey →
    c.object.path.last? = some (CanonicalPath.indexKey frame.toNat)) := by
  simp [enters, Decidable.imp_iff_not_or]

theorem Route.mem_nodes {path : List Nat} (route : t.Route frame n path m) (hn : n ∈ t.nodes) :
    m ∈ t.nodes := by
  induction route with
  | here => exact hn
  | down child stack rest ih => exact ih (mem_of_child (List.mem_of_getElem? child))

/-- Where no object is entered from itself, the identities along a route increase. -/
theorem Numbered.id_add_length_le (h : t.Numbered) {path : List Nat} (hn : n ∈ t.nodes)
    (route : t.Route frame n path m)
    (others : ∀ path m, t.Route frame n path m → ¬Reenters frame m) :
    n.object.id + path.length ≤ m.object.id := by
  induction route with
  | here => simp
  | @down n c m i path child stack rest ih =>
      have hc : c ∈ t.children n := List.mem_of_getElem? child
      have hlt : n.object.id + 1 ≤ c.object.id :=
        h.lt_child hn hc (enters_eq_true_iff.mpr stack) (others _ _ (.here n))
      have hrest := ih (mem_of_child hc) fun path m route => others _ _ (.down child stack route)
      calc n.object.id + (path.length + 1) = n.object.id + 1 + path.length := by
            rw [Nat.add_right_comm, Nat.add_assoc]
        _ ≤ c.object.id + path.length := Nat.add_le_add_right hlt _
        _ ≤ m.object.id := hrest

/-- Then there are no longer routes than objects. -/
theorem Numbered.length_lt (h : t.Numbered) {path : List Nat} (hn : n ∈ t.nodes)
    (others : ∀ path m, t.Route frame n path m → ¬Reenters frame m)
    (route : t.Route frame n path m) : path.length < t.nodes.length := by
  have hstart : 1 + path.length ≤ n.object.id + path.length :=
    Nat.add_le_add_right (h.bounds hn).1 _
  rw [Nat.add_comm] at hstart
  exact hstart.trans ((h.id_add_length_le hn route others).trans (h.bounds (route.mem_nodes hn)).2)

/-- The routes of a length from an object, with the objects they lead to. -/
def routes (t : ObjectTree) (frame : UInt32) : Nat → ObjectNode → List (List Nat × ObjectNode)
  | 0, n => [([], n)]
  | length + 1, n => ((t.children n).zipIdx.filter fun child => enters frame n child.1).flatMap
      fun child => (t.routes frame length child.1).map fun r => (child.2 :: r.1, r.2)

theorem mem_routes {length : Nat} {path : List Nat} :
    (path, m) ∈ t.routes frame length n ↔ path.length = length ∧ t.Route frame n path m := by
  induction length generalizing n path with
  | zero =>
      simp only [routes, List.mem_singleton, Prod.mk.injEq, List.length_eq_zero_iff]
      constructor
      · rintro ⟨rfl, rfl⟩
        exact ⟨rfl, .here _⟩
      · rintro ⟨rfl, route⟩
        cases route
        exact ⟨rfl, rfl⟩
  | succ length ih =>
      simp only [routes, List.mem_flatMap, List.mem_filter, List.mem_map, Prod.mk.injEq]
      constructor
      · rintro ⟨⟨c, i⟩, ⟨hchild, henters⟩, ⟨rest, m'⟩, hrest, rfl, rfl⟩
        obtain ⟨rfl, route⟩ := ih.mp hrest
        exact ⟨rfl, .down (List.mem_zipIdx_iff_getElem?.mp hchild)
          (enters_eq_true_iff.mp henters) route⟩
      · rintro ⟨hlength, route⟩
        cases route with
        | here => cases hlength
        | @down _ c _ i rest child stack route =>
            exact ⟨(c, i), ⟨List.mem_zipIdx_iff_getElem?.mpr child, enters_eq_true_iff.mpr stack⟩,
              (rest, m), ih.mpr ⟨Nat.succ.inj hlength, route⟩, rfl, rfl⟩

/-- Routes of one length are listed turn by turn. -/
theorem pairwise_routes (t : ObjectTree) (frame : UInt32) (length : Nat) (n : ObjectNode) :
    (t.routes frame length n).Pairwise fun r r' => List.Lex (· < ·) r.1 r'.1 := by
  induction length generalizing n with
  | zero => exact List.pairwise_singleton _ _
  | succ length ih =>
      rw [routes, List.pairwise_flatMap]
      constructor
      · intro child _
        rw [List.pairwise_map]
        exact (ih child.1).imp fun hlex => .cons hlex
      · -- the children stand in the order of their places
        have hplaces : (t.children n).zipIdx.Pairwise fun c c' => c.2 < c'.2 := by
          rw [← List.pairwise_map (f := Prod.snd), List.zipIdx_map_snd]
          exact List.pairwise_lt_range'
        refine (hplaces.filter _).imp ?_
        intro c c' hlt r hr r' hr'
        obtain ⟨_, -, rfl⟩ := List.mem_map.mp hr
        obtain ⟨_, -, rfl⟩ := List.mem_map.mp hr'
        exact .rel hlt

/-! ## Levels -/

/-- The level so many levels below. -/
def levelBelow (t : ObjectTree) (frame : UInt32) (depth : Nat) (level : List ObjectNode) :
    List ObjectNode := (t.below frame)^[depth] level

theorem levelBelow_succ (depth : Nat) (level : List ObjectNode) :
    t.levelBelow frame (depth + 1) level = t.levelBelow frame depth (t.below frame level) := rfl

/-- A level holds the ends of the routes of its depth. -/
theorem levelBelow_eq (depth : Nat) (level : List ObjectNode) :
    t.levelBelow frame depth level =
      level.flatMap fun n => (t.routes frame depth n).map Prod.snd := by
  induction depth generalizing level with
  | zero => simp [levelBelow, routes]
  | succ depth ih =>
      have hentered : ∀ n, (t.children n).filter (enters frame n) =
          ((t.children n).zipIdx.filter fun child => enters frame n child.1).map Prod.fst := by
        intro n
        rw [show (fun child : ObjectNode × Nat => enters frame n child.1) =
          enters frame n ∘ Prod.fst from rfl, ← List.filter_map, List.zipIdx_map_fst]
      rw [levelBelow_succ, ih, below, List.flatMap_assoc]
      congr 1
      funext n
      rw [routes, hentered, List.flatMap_map, List.map_flatMap]
      simp [Function.comp_def]

/-- The levels down to a depth, one after the other. -/
def levelsUpTo (t : ObjectTree) (frame : UInt32) (depth : Nat) (level : List ObjectNode) :
    List ObjectNode := (List.range (depth + 1)).flatMap fun d => t.levelBelow frame d level

theorem levelsUpTo_zero (level : List ObjectNode) : t.levelsUpTo frame 0 level = level := by
  simp [levelsUpTo, levelBelow]

theorem levelsUpTo_succ (depth : Nat) (level : List ObjectNode) :
    t.levelsUpTo frame (depth + 1) level =
      level ++ t.levelsUpTo frame depth (t.below frame level) := by
  rw [levelsUpTo, List.range_succ_eq_map, List.flatMap_cons, List.flatMap_map]
  rfl

theorem searchOn_nil {below : List ObjectNode → List ObjectNode} : searchOn below [] = none := by
  rw [searchOn]
  rfl

theorem searchOn_of_container {below : List ObjectNode → List ObjectNode} {level : List ObjectNode}
    (h : level.find? (·.container) = some n) : searchOn below level = some n := by
  rw [searchOn, h]

/-- There is nothing below an empty level. -/
theorem searchOn_below {level : List ObjectNode} (h : level.find? (·.container) = none) :
    searchOn (t.below frame) level = searchOn (t.below frame) (t.below frame level) := by
  cases level with
  | nil => rfl
  | cons m level =>
      rw [searchOn, h]
      rfl

theorem search_eq_searchOn (rounds : Nat) (level : List ObjectNode) :
    t.search frame rounds level = searchOn (t.below frame) level := by
  induction rounds generalizing level with
  | zero =>
      cases level with
      | nil => exact searchOn_nil.symm
      | cons n level => rfl
  | succ rounds ih =>
      rw [search, ih]
      cases hfirst : level.find? (·.container) with
      | some n => exact (searchOn_of_container hfirst).symm
      | none => exact (searchOn_below hfirst).symm

/-- A search goes through the levels one after the other. -/
theorem searchOn_eq_some_iff {level : List ObjectNode} :
    searchOn (t.below frame) level = some n ↔
      ∃ depth, (t.levelsUpTo frame depth level).find? (·.container) = some n := by
  constructor
  · apply searchOn.partial_correctness (motive := fun level n =>
      ∃ depth, (t.levelsUpTo frame depth level).find? (·.container) = some n)
    intro go ih level n hgo
    cases hfirst : level.find? (·.container) with
    | some m =>
        rw [hfirst] at hgo
        refine ⟨0, ?_⟩
        rw [levelsUpTo_zero, hfirst]
        exact hgo
    | none =>
        simp only [hfirst, Option.ite_none_left_eq_some] at hgo
        obtain ⟨depth, hdepth⟩ := ih _ _ hgo.2
        exact ⟨depth + 1, by rw [levelsUpTo_succ, List.find?_append, hfirst, hdepth]; rfl⟩
  · rintro ⟨depth, hdepth⟩
    induction depth generalizing level with
    | zero =>
        rw [levelsUpTo_zero] at hdepth
        exact searchOn_of_container hdepth
    | succ depth ih =>
        rw [levelsUpTo_succ, List.find?_append] at hdepth
        cases hfirst : level.find? (·.container) with
        | some m =>
            rw [searchOn_of_container hfirst]
            rwa [hfirst] at hdepth
        | none =>
            rw [searchOn_below hfirst]
            rw [hfirst] at hdepth
            exact ih hdepth

/-- The routes from an object that are no longer than so many turns, shorter ones first. -/
def routesUpTo (t : ObjectTree) (frame : UInt32) (bound : Nat) (n : ObjectNode) :
    List (List Nat × ObjectNode) := (List.range (bound + 1)).flatMap fun length =>
  t.routes frame length n

theorem mem_routesUpTo {bound : Nat} {path : List Nat} :
    (path, m) ∈ t.routesUpTo frame bound n ↔ path.length ≤ bound ∧ t.Route frame n path m := by
  simp only [routesUpTo, List.mem_flatMap, List.mem_range, mem_routes, Nat.lt_succ_iff]
  constructor
  · rintro ⟨length, hle, rfl, route⟩
    exact ⟨hle, route⟩
  · rintro ⟨hle, route⟩
    exact ⟨_, hle, rfl, route⟩

theorem pairwise_routesUpTo (t : ObjectTree) (frame : UInt32) (bound : Nat) (n : ObjectNode) :
    (t.routesUpTo frame bound n).Pairwise fun r r' => List.Shortlex (· < ·) r.1 r'.1 := by
  rw [routesUpTo, List.pairwise_flatMap]
  constructor
  · intro length _
    refine (t.pairwise_routes frame length n).imp_of_mem ?_
    intro r r' hr hr' hlex
    exact .of_lex ((mem_routes.mp hr).1.trans (mem_routes.mp hr').1.symm) hlex
  · refine List.pairwise_lt_range.imp ?_
    intro length length' hlt r hr r' hr'
    apply List.Shortlex.of_length_lt
    rw [(mem_routes.mp hr).1, (mem_routes.mp hr').1]
    exact hlt

theorem levelsUpTo_singleton (bound : Nat) (n : ObjectNode) :
    t.levelsUpTo frame bound [n] = (t.routesUpTo frame bound n).map Prod.snd := by
  rw [levelsUpTo, routesUpTo, List.map_flatMap]
  simp only [levelBelow_eq, List.flatMap_singleton]

theorem search_eq_some_iff_routes {rounds : Nat} :
    t.search frame rounds [start] = some n ↔ ∃ bound,
      ((t.routesUpTo frame bound start).find? (·.2.container)).map Prod.snd = some n := by
  rw [search_eq_searchOn, searchOn_eq_some_iff]
  refine exists_congr fun bound => ?_
  rw [levelsUpTo_singleton, List.find?_map, Function.comp_def]

/-! ## The queue -/

/-- What one turn of the loop comes to. -/
inductive Turn where
  | answers (found : Option ObjectRef)
  | goesOn (queue : List ObjectId)

/-- One turn of the loop over a queue of objects. -/
def turn (t : ObjectTree) (frame : UInt32) : List ObjectId → Turn
  | [] => .answers none
  | id :: queue =>
    match t.node? id with
    | none => .answers none
    | some n =>
      if n.container then .answers (some n.object)
      else .goesOn (queue ++ ((t.children n).filter (enters frame n)).map (·.object.id))

/-- The loop comes to an end with an answer. -/
inductive Ends (t : ObjectTree) (frame : UInt32) : List ObjectId → Option ObjectRef → Prop
  | now {queue : List ObjectId} {found : Option ObjectRef}
      (answers : t.turn frame queue = .answers found) : Ends t frame queue found
  | later {queue next : List ObjectId} {found : Option ObjectRef}
      (goesOn : t.turn frame queue = .goesOn next) (rest : Ends t frame next found) :
      Ends t frame queue found

theorem Ends.unique {queue : List ObjectId} {found found' : Option ObjectRef}
    (h : t.Ends frame queue found) (h' : t.Ends frame queue found') : found = found' := by
  induction h with
  | now answers =>
      cases h' with
      | now answers' =>
          rw [answers] at answers'
          cases answers'
          rfl
      | later goesOn' rest' =>
          rw [answers] at goesOn'
          cases goesOn'
  | later goesOn rest ih =>
      cases h' with
      | now answers' =>
          rw [goesOn] at answers'
          cases answers'
      | later goesOn' rest' =>
          rw [goesOn] at goesOn'
          cases goesOn'
          exact ih rest'

def idsOf (level : List ObjectNode) : List ObjectId := level.map (·.object.id)

/-- A turn at an object that is no container puts what is below it behind the queue. -/
theorem Numbered.turn_eq (h : t.Numbered) (hn : n ∈ t.nodes) (passed : ¬n.container = true)
    (level next : List ObjectNode) : t.turn frame (idsOf (n :: level ++ next)) =
      .goesOn (idsOf (level ++ (next ++ (t.children n).filter (enters frame n)))) := by
  simp [idsOf, turn, h.node?_eq hn, passed]

/-- A level with a container ends the loop, whatever the next level in the queue is. -/
theorem Numbered.ends_of_container (h : t.Numbered) {level : List ObjectNode}
    (known : ∀ n ∈ level, n ∈ t.nodes) (found : level.find? (·.container) = some m)
    (next : List ObjectNode) : t.Ends frame (idsOf (level ++ next)) (some m.object) := by
  induction level generalizing next with
  | nil => cases found
  | cons n level ih =>
      rw [List.forall_mem_cons] at known
      by_cases hcontainer : n.container = true
      · simp only [List.find?_cons, hcontainer] at found
        cases found
        refine .now ?_
        simp [idsOf, turn, h.node?_eq known.1, hcontainer]
      · simp only [List.find?_cons, hcontainer] at found
        exact .later (h.turn_eq known.1 hcontainer level next) (ih known.2 found _)

/-- A level without a container makes room for the level below it. -/
theorem Numbered.ends_of_below (h : t.Numbered) {level : List ObjectNode} {found : Option ObjectRef}
    (known : ∀ n ∈ level, n ∈ t.nodes) (nothing : ∀ n ∈ level, ¬n.container = true)
    (next : List ObjectNode) (rest : t.Ends frame (idsOf (next ++ t.below frame level)) found) :
    t.Ends frame (idsOf (level ++ next)) found := by
  induction level generalizing next with
  | nil => simpa [below] using rest
  | cons n level ih =>
      rw [List.forall_mem_cons] at known nothing
      refine .later (h.turn_eq known.1 nothing.1 level next) (ih known.2 nothing.2 _ ?_)
      simpa [below] using rest

theorem known_below {level : List ObjectNode} : ∀ n ∈ t.below frame level, n ∈ t.nodes := by
  intro n hn
  obtain ⟨m, -, hn⟩ := List.mem_flatMap.mp hn
  exact mem_of_child (List.mem_of_mem_filter hn)

/-- **The loop goes through the levels** down to one with a container or one with nothing on it. -/
theorem Numbered.ends_levels (h : t.Numbered) {depth : Nat} {level : List ObjectNode}
    (known : ∀ n ∈ level, n ∈ t.nodes)
    (bottom : (t.levelsUpTo frame depth level).find? (·.container) = none →
      t.levelBelow frame depth level = []) :
    t.Ends frame (idsOf level)
      (((t.levelsUpTo frame depth level).find? (·.container)).map (·.object)) := by
  induction depth generalizing level with
  | zero =>
      rw [levelsUpTo_zero] at bottom ⊢
      cases hfirst : level.find? (·.container) with
      | some m => simpa using h.ends_of_container known hfirst []
      | none =>
          obtain rfl : level = [] := bottom hfirst
          exact .now rfl
  | succ depth ih =>
      rw [levelsUpTo_succ, List.find?_append] at bottom ⊢
      cases hfirst : level.find? (·.container) with
      | some m => simpa using h.ends_of_container known hfirst []
      | none =>
          rw [hfirst] at bottom
          have hrest : t.Ends frame (idsOf (t.below frame level)) _ := ih known_below bottom
          have nothing := List.find?_eq_none.mp hfirst
          simpa using h.ends_of_below known nothing [] hrest

/-! ## The nearest container -/

/-- The first of the elements that pass, in a list that stands in order. -/
theorem find?_eq_some_iff_of_pairwise {α : Type} {R : α → α → Prop} {l : List α}
    (asymm : ∀ x y, R x y → ¬R y x) (hl : l.Pairwise R) {p : α → Bool} {x : α} :
    l.find? p = some x ↔ x ∈ l ∧ p x = true ∧ ∀ y ∈ l, p y = true → y = x ∨ R x y := by
  induction l with
  | nil => simp
  | cons a l ih =>
      obtain ⟨ha, hl⟩ := List.pairwise_cons.mp hl
      by_cases hpa : p a = true
      · rw [List.find?_cons_of_pos hpa, Option.some.injEq]
        constructor
        · rintro rfl
          refine ⟨List.mem_cons_self, hpa, ?_⟩
          intro y hy _
          exact (List.mem_cons.mp hy).imp_right (ha y)
        · rintro ⟨hx, -, hfirst⟩
          -- nothing stands in front of `a`
          rcases hfirst a List.mem_cons_self hpa with hax | hxa
          · exact hax
          · rcases List.mem_cons.mp hx with hx | hx
            · exact hx.symm
            · exact absurd hxa (asymm a x (ha x hx))
      · rw [List.find?_cons_of_neg hpa, ih hl]
        constructor
        · rintro ⟨hx, hpx, hfirst⟩
          refine ⟨List.mem_cons_of_mem _ hx, hpx, ?_⟩
          intro y hy hpy
          rcases List.mem_cons.mp hy with rfl | hy
          · exact absurd hpy hpa
          · exact hfirst y hy hpy
        · rintro ⟨hx, hpx, hfirst⟩
          refine ⟨?_, hpx, fun y hy => hfirst y (List.mem_cons_of_mem _ hy)⟩
          rcases List.mem_cons.mp hx with rfl | hx
          · exact absurd hpx hpa
          · exact hx

/-- The route leads to a container, and any other route that does comes after it: it is longer, or as
long and takes a later turn where the two part. -/
structure Nearest (t : ObjectTree) (frame : UInt32) (start : ObjectNode) (path : List Nat)
    (n : ObjectNode) : Prop where
  route : t.Route frame start path n
  container : n.container = true
  first : ∀ path' m, t.Route frame start path' m → m.container = true →
    path' = path ∨ List.Shortlex (· < ·) path path'

theorem Nearest.not_nothing {path : List Nat} (h : t.Nearest frame start path n) :
    ¬∀ path n, t.Route frame start path n → n.container = false := by
  intro nothing
  have hcontainer := h.container
  rw [nothing path n h.route] at hcontainer
  cases hcontainer

/-- What a search finds is the nearest container. -/
theorem search_eq_some_iff {rounds : Nat} :
    t.search frame rounds [start] = some n ↔ ∃ path, t.Nearest frame start path n := by
  simp only [search_eq_some_iff_routes, Option.map_eq_some_iff,
    find?_eq_some_iff_of_pairwise (fun _ _ => Std.Asymm.asymm _ _)
      (t.pairwise_routesUpTo frame _ start)]
  constructor
  · rintro ⟨bound, ⟨path, n⟩, ⟨hmem, hcontainer, hfirst⟩, rfl⟩
    obtain ⟨hlength, hroute⟩ := mem_routesUpTo.mp hmem
    refine ⟨path, hroute, hcontainer, ?_⟩
    intro path' m route hm
    by_cases hle : path'.length ≤ bound
    · exact (hfirst _ (mem_routesUpTo.mpr ⟨hle, route⟩) hm).imp_left (congrArg Prod.fst)
    · exact .inr (.of_length_lt (hlength.trans_lt (Nat.lt_of_not_le hle)))
  · rintro ⟨path, nearest⟩
    refine ⟨path.length, (path, n), ⟨mem_routesUpTo.mpr ⟨Nat.le_refl _, nearest.route⟩,
      nearest.container, ?_⟩, rfl⟩
    rintro ⟨path', m⟩ hmem hm
    have route := (mem_routesUpTo.mp hmem).2
    refine (nearest.first path' m route hm).imp_left ?_
    rintro rfl
    rw [route.unique nearest.route]

theorem search_eq_none_iff {rounds : Nat} : t.search frame rounds [start] = none ↔
    ∀ path n, t.Route frame start path n → n.container = false := by
  constructor
  · intro hnone path n route
    by_contra hcontainer
    have hmem : (path, n) ∈ t.routesUpTo frame path.length start :=
      mem_routesUpTo.mpr ⟨Nat.le_refl _, route⟩
    have hsome : ((t.routesUpTo frame path.length start).find? (·.2.container)).isSome = true :=
      List.find?_isSome.mpr ⟨_, hmem, by simpa using hcontainer⟩
    obtain ⟨r, hr⟩ := Option.isSome_iff_exists.mp hsome
    have hfound : t.search frame rounds [start] = some r.2 :=
      search_eq_some_iff_routes.mpr ⟨path.length, by rw [hr]; rfl⟩
    rw [hnone] at hfound
    cases hfound
  · intro nothing
    rw [Option.eq_none_iff_forall_ne_some]
    intro n hn
    obtain ⟨path, nearest⟩ := search_eq_some_iff.mp hn
    exact nearest.not_nothing nothing

theorem nearestContainer_of_unknown {object : ObjectRef} (unknown : t.node? object.id = none) :
    t.nearestContainer object frame = none := by
  simp [nearestContainer, unknown]

theorem nearestContainer_of_known {object : ObjectRef} (known : t.node? object.id = some start) :
    t.nearestContainer object frame =
      (t.search frame t.nodes.length [start]).map (·.object) := by
  unfold nearestContainer
  rw [known]
  show (t.search frame t.nodes.length [start]).bind (fun found => some found.object) = _
  rw [Option.map_eq_bind]
  rfl

/-! ## Where a search ends -/

/-- A search from the object goes on for ever: it comes to no container, and to an object that it
enters from itself. -/
structure Endless (t : ObjectTree) (frame : UInt32) (start : ObjectNode) : Prop where
  nothing : ∀ path n, t.Route frame start path n → n.container = false
  again : ∃ path n, t.Route frame start path n ∧ Reenters frame n

/-- The objects that a search is led to stay without a container. -/
theorem Endless.down (h : t.Endless frame n) {c : ObjectNode} (hc : c ∈ t.children n)
    (entered : enters frame n c = true) (again : ∃ path m, t.Route frame c path m ∧
      Reenters frame m) : t.Endless frame c := by
  obtain ⟨i, hi⟩ := List.mem_iff_getElem?.mp hc
  refine ⟨?_, again⟩
  intro path m route
  exact h.nothing _ _ (.down hi (enters_eq_true_iff.mp entered) route)

/-- One of the objects that are entered from an endless one is endless as well. -/
theorem Endless.exists_child (h : t.Endless frame n) (hn : n ∈ t.nodes) :
    ∃ c ∈ (t.children n).filter (enters frame n), t.Endless frame c := by
  obtain ⟨path, m, route, hparent, hagain⟩ := h.again
  cases route with
  | here =>
      have hself : n ∈ t.children n := List.mem_filter.mpr ⟨hn, by simp [hparent]⟩
      exact ⟨n, List.mem_filter.mpr ⟨hself, hagain⟩, h⟩
  | down child stack rest =>
      have hc := List.mem_of_getElem? child
      have hentered := enters_eq_true_iff.mpr stack
      exact ⟨_, List.mem_filter.mpr ⟨hc, hentered⟩,
        h.down hc hentered ⟨_, m, rest, hparent, hagain⟩⟩

/-- The objects of a queue are known, none of them leads to a container, and one of them is endless.
-/
structure Stuck (t : ObjectTree) (frame : UInt32) (queue : List ObjectId) : Prop where
  known : ∀ id ∈ queue, ∃ n, t.node? id = some n ∧
    ∀ path m, t.Route frame n path m → m.container = false
  endless : ∃ id ∈ queue, ∃ n, t.node? id = some n ∧ t.Endless frame n

/-- A turn at a queue that is stuck leaves it stuck. -/
theorem Numbered.stuck_turn (h : t.Numbered) {queue : List ObjectId} (stuck : t.Stuck frame queue) :
    ∃ next, t.turn frame queue = .goesOn next ∧ t.Stuck frame next := by
  cases queue with
  | nil =>
      obtain ⟨id, hid, -⟩ := stuck.endless
      cases hid
  | cons id queue =>
      obtain ⟨n, hnode, nothing⟩ := stuck.known id List.mem_cons_self
      have hn := (mem_of_node? hnode).1
      refine ⟨queue ++ ((t.children n).filter (enters frame n)).map (·.object.id), ?_, ?_, ?_⟩
      · simp [turn, hnode, nothing _ _ (.here n)]
      · intro id' hid'
        rcases List.mem_append.mp hid' with hid' | hid'
        · exact stuck.known id' (List.mem_cons_of_mem _ hid')
        · obtain ⟨c, hc, rfl⟩ := List.mem_map.mp hid'
          obtain ⟨hc, hentered⟩ := List.mem_filter.mp hc
          obtain ⟨i, hi⟩ := List.mem_iff_getElem?.mp hc
          refine ⟨c, h.node?_eq (mem_of_child hc), ?_⟩
          intro path m route
          exact nothing _ _ (.down hi (enters_eq_true_iff.mp hentered) route)
      · obtain ⟨id', hid', m, hm, hendless⟩ := stuck.endless
        rcases List.mem_cons.mp hid' with rfl | hid'
        · obtain rfl := Option.some.inj (hnode.symm.trans hm)
          obtain ⟨c, hc, hchild⟩ := hendless.exists_child hn
          refine ⟨c.object.id, List.mem_append_right _ (List.mem_map_of_mem hc), c, ?_, hchild⟩
          exact h.node?_eq (mem_of_child (List.mem_of_mem_filter hc))
        · exact ⟨id', List.mem_append_left _ hid', m, hm, hendless⟩

theorem Numbered.not_ends_of_stuck (h : t.Numbered) {queue : List ObjectId}
    {found : Option ObjectRef} (stuck : t.Stuck frame queue) : ¬t.Ends frame queue found := by
  intro ends
  induction ends with
  | now answers =>
      obtain ⟨next, hturn, -⟩ := h.stuck_turn stuck
      rw [answers] at hturn
      cases hturn
  | later goesOn rest ih =>
      obtain ⟨next, hturn, hnext⟩ := h.stuck_turn stuck
      rw [goesOn] at hturn
      cases hturn
      exact ih hnext

/-- **An endless search does not end.** -/
theorem Numbered.not_ends_of_endless (h : t.Numbered) {id : ObjectId} {found : Option ObjectRef}
    (known : t.node? id = some start) (endless : t.Endless frame start) :
    ¬t.Ends frame [id] found := by
  apply h.not_ends_of_stuck
  constructor
  · intro id' hid'
    rw [List.mem_singleton.mp hid']
    exact ⟨start, known, endless.nothing⟩
  · exact ⟨id, List.mem_singleton_self id, start, known, endless⟩

theorem Numbered.levelBelow_eq_nil (h : t.Numbered) (hstart : start ∈ t.nodes)
    (others : ∀ path m, t.Route frame start path m → ¬Reenters frame m) :
    t.levelBelow frame t.nodes.length [start] = [] := by
  rw [levelBelow_eq, List.flatMap_singleton, List.map_eq_nil_iff, List.eq_nil_iff_forall_not_mem]
  rintro ⟨path, m⟩ hmem
  obtain ⟨hlength, route⟩ := mem_routes.mp hmem
  exact Nat.ne_of_lt (h.length_lt hstart others route) hlength

/-- A search from a known object ends with what is found, unless it is endless. -/
theorem Numbered.ends_search (h : t.Numbered) (hstart : start ∈ t.nodes)
    (ends : ¬t.Endless frame start) (rounds : Nat) :
    t.Ends frame [start.object.id] ((t.search frame rounds [start]).map (·.object)) := by
  have known : ∀ n ∈ [start], n ∈ t.nodes := by simpa using hstart
  rw [search_eq_searchOn]
  cases hsearch : searchOn (t.below frame) [start] with
  | some n =>
      obtain ⟨depth, hdepth⟩ := searchOn_eq_some_iff.mp hsearch
      have hends : t.Ends frame (idsOf [start])
          (((t.levelsUpTo frame depth [start]).find? (·.container)).map (·.object)) :=
        h.ends_levels known (by simp [hdepth])
      rw [hdepth] at hends
      exact hends
  | none =>
      have nothing := search_eq_none_iff.mp ((search_eq_searchOn 0 [start]).trans hsearch)
      have others : ∀ path m, t.Route frame start path m → ¬Reenters frame m :=
        fun path m route again => ends ⟨nothing, path, m, route, again⟩
      have hends := h.ends_levels known fun _ => h.levelBelow_eq_nil hstart others
      have hnone : (t.levelsUpTo frame t.nodes.length [start]).find? (·.container) = none := by
        rw [Option.eq_none_iff_forall_ne_some]
        intro n hn
        rw [searchOn_eq_some_iff.mpr ⟨_, hn⟩] at hsearch
        cases hsearch
      rw [hnone] at hends
      exact hends

/-- **The search for a container finds the nearest one, and ends unless it is endless.** From any
object of any tree that calls have built, and for any frame, the loop over the queue comes to an end
exactly if the search is not endless, and then with the answer of `nearestContainer`. This is nothing
if the object is unknown or no route leads from it to a container, and else the container at the end
of the first route that leads to one. -/
theorem nearestContainer_nearest (built : t.Built) (object : ObjectRef) (frame : UInt32) :
    (∀ found, t.Ends frame [object.id] found ↔ found = t.nearestContainer object frame ∧
      ∀ start, t.node? object.id = some start → ¬t.Endless frame start) ∧
      (t.nearestContainer object frame = none ↔ t.node? object.id = none ∨
        ∃ start, t.node? object.id = some start ∧
          ∀ path n, t.Route frame start path n → n.container = false) ∧
      ∀ found, t.nearestContainer object frame = some found ↔ ∃ start path n,
        t.node? object.id = some start ∧ t.Nearest frame start path n ∧ n.object = found := by
  have h := built.numbered
  cases hnode : t.node? object.id with
  | none =>
      have hends : t.Ends frame [object.id] none := .now (by simp [turn, hnode])
      rw [nearestContainer_of_unknown hnode]
      refine ⟨?_, by simp, by simp⟩
      intro found
      simp only [reduceCtorEq, false_implies, implies_true, and_true]
      exact ⟨fun h' => h'.unique hends, fun h' => h' ▸ hends⟩
  | some start =>
      obtain ⟨hstart, hid⟩ := mem_of_node? hnode
      rw [nearestContainer_of_known hnode]
      refine ⟨?_, ?_, ?_⟩
      · intro found
        simp only [Option.some.injEq, forall_eq']
        constructor
        · intro hends
          have hendless : ¬t.Endless frame start :=
            fun endless => h.not_ends_of_endless hnode endless hends
          rw [← hid] at hends
          exact ⟨hends.unique (h.ends_search hstart hendless _), hendless⟩
        · rintro ⟨rfl, hendless⟩
          rw [← hid]
          exact h.ends_search hstart hendless _
      · rw [Option.map_eq_none_iff, search_eq_none_iff]
        simp
      · intro found
        rw [Option.map_eq_some_iff]
        simp only [search_eq_some_iff, Option.some.injEq]
        constructor
        · rintro ⟨n, ⟨path, nearest⟩, rfl⟩
          exact ⟨start, path, n, rfl, nearest, rfl⟩
        · rintro ⟨_, path, n, rfl, nearest, rfl⟩
          exact ⟨n, ⟨path, nearest⟩, rfl⟩

/-- A thread with a stack of two frames that have a container each. -/
def twoFrames : ObjectTree :=
  let t := (addRoot { schema := true } "Thread").2
  let t := (t.addChild ⟨1, ⟨["Thread"]⟩⟩ "Stack" false).2
  let t := (t.addElement ⟨2, ⟨["Thread", "Stack"]⟩⟩ 0 true).2
  let t := (t.addElement ⟨2, ⟨["Thread", "Stack"]⟩⟩ 1 false).2
  (t.addChild ⟨4, ⟨["Thread", "Stack", "[1]"]⟩⟩ "Registers" true).2

theorem built_twoFrames : twoFrames.Built :=
  .child (.element (.element (.child (.root (.empty true) "Thread") _ "Stack" false) _ 0 true) _ 1
    false) _ "Registers" true

/-- For frame 1 the container of frame 0 is out of reach, though it is nearer. -/
theorem nearestContainer_nearest_twoFrames : twoFrames.Ends 1 [1]
    (some ⟨5, ⟨["Thread", "Stack", "[1]", "Registers"]⟩⟩) := by
  obtain ⟨hends, -, hfound⟩ := nearestContainer_nearest built_twoFrames ⟨1, ⟨["Thread"]⟩⟩ 1
  refine (hends _).mpr ⟨by decide, ?_⟩
  intro start hstart endless
  obtain ⟨start', path, n, hstart', nearest, -⟩ :=
    (hfound ⟨5, ⟨["Thread", "Stack", "[1]", "Registers"]⟩⟩).mp (by decide)
  obtain rfl := Option.some.inj (hstart.symm.trans hstart')
  exact nearest.not_nothing endless.nothing

/-- A tree whose only object was added under a reference of another tree, which has the identity that
the object got. -/
def ownChild : ObjectTree := (addChild {} ⟨1, ⟨["Thread"]⟩⟩ "Module" false).2

/-- There is no container in the tree, but a search from its only object does not end with this
answer, nor with any other. -/
theorem not_ends_ownChild : ownChild.Built ∧ (∀ n ∈ ownChild.nodes, n.container = false) ∧
    ∀ found, ¬ownChild.Ends 0 [1] found := by
  have built : ownChild.Built := .child (.empty false) _ "Module" false
  have nothing : ∀ n ∈ ownChild.nodes, n.container = false := by decide
  have known : ownChild.node? 1 = some ⟨⟨1, ⟨["Thread", "Module"]⟩⟩, false, some 1⟩ := by decide
  refine ⟨built, nothing, fun found => built.numbered.not_ends_of_endless known ⟨?_, ?_⟩⟩
  · intro path n route
    exact nothing n (route.mem_nodes (mem_of_node? known).1)
  · exact ⟨[], _, .here _, rfl, by decide⟩

end TraceAtlas.ObjectTree
