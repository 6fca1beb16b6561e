import XenAet.XenstoreWrite

namespace XenAet.XenstoreTree
open XenAet.XenstoreNode XenAet.XenstoreWrite
open Library
open Library.Paths (Named Component Under)

variable {c : Requester} {v w : View} {S T : Store} {name pname comp : Name} {node parent : Node}

-- The counts never touch the database.
@[simp] theorem domainEntryInc_store (c : Requester) (v : View) (node : Node) : (domainEntryInc c v node).store = v.store := by
  unfold domainEntryInc
  repeat' split
  all_goals rfl

@[simp] theorem domainEntryDec_store (c : Requester) (v : View) (node : Node) : (domainEntryDec c v node).store = v.store := by
  unfold domainEntryDec
  repeat' split
  all_goals rfl

theorem writeNode_store (wrote : writeNode c v name node = some w) : w.store = Function.update v.store name (some node) := by
  unfold writeNode at wrote
  split at wrote
  · cases wrote
  · cases wrote
    rfl

theorem isSome_update (S : Store) (name other : Name) (node : Node) (stored : (S other).isSome = true) :
    (Function.update S name (some node) other).isSome = true := by
  by_cases same : other = name
  · subst same
    rw [Function.update_self]
    rfl
  · rw [Function.update_of_ne same]
    exact stored

-- Rewriting a node with the children it has.
theorem tree_rewrite (tree : Tree T) (here : T name = some node) (new : Node) (same : new.children = node.children) :
    Tree (Function.update T name (some new)) := by
  have kept (other : Name) (found : Node) (is : Function.update T name (some new) other = some found) :
      ∃ old, T other = some old ∧ found.children = old.children := by
    by_cases self : other = name
    · subst self
      rw [Function.update_self] at is
      cases is
      exact ⟨node,here,same⟩
    · rw [Function.update_of_ne self] at is
      exact ⟨found,is,rfl⟩
  refine ⟨isSome_update T name root new tree.rooted,?_,?_,?_⟩
  · intro other found is
    obtain ⟨old,was,_⟩ := kept other found is
    exact tree.named other old was
  · intro other found is notRoot
    obtain ⟨old,was,_⟩ := kept other found is
    obtain ⟨above,stored,once⟩ := tree.listed other old was notRoot
    have present := isSome_update T name (getParent other) new (by rw [stored]; rfl)
    obtain ⟨now,isNow⟩ := Option.isSome_iff_exists.mp present
    obtain ⟨before,was,children⟩ := kept _ now isNow
    rw [stored] at was
    cases was
    exact ⟨now,isNow,by rw [children]; exact once⟩
  · intro other found is comp member
    obtain ⟨old,was,children⟩ := kept other found is
    rw [children] at member
    obtain ⟨component,stored⟩ := tree.stored other old was comp member
    exact ⟨component,isSome_update T name _ new stored⟩

-- A new leaf, listed by its parent.
def grown (T : Store) (pname : Name) (parent : Node) (comp : Name) (leaf : Node) : Store :=
  Function.update (Function.update T pname (some {parent with children := parent.children ++ [comp]})) (Paths.child '/' pname comp) (some leaf)

theorem grown_cases (is : grown T pname parent comp leaf other = some found) :
    other = Paths.child '/' pname comp ∧ found = leaf ∨
      other = pname ∧ found = {parent with children := parent.children ++ [comp]} ∨
      other ≠ Paths.child '/' pname comp ∧ other ≠ pname ∧ T other = some found := by
  unfold grown at is
  by_cases leaf_ : other = Paths.child '/' pname comp
  · subst leaf_
    rw [Function.update_self] at is
    cases is
    exact .inl ⟨rfl,rfl⟩
  · rw [Function.update_of_ne leaf_] at is
    by_cases above : other = pname
    · subst above
      rw [Function.update_self] at is
      cases is
      exact .inr (.inl ⟨rfl,rfl⟩)
    · rw [Function.update_of_ne above] at is
      exact .inr (.inr ⟨leaf_,above,is⟩)

theorem tree_grow (tree : Tree T) (above : T pname = some parent) (component : Component '/' comp)
    (missing : T (Paths.child '/' pname comp) = none) (short : (Paths.child '/' pname comp).length ≤ xenstoreAbsPathMax)
    (leaf : Node) (bare : leaf.children = []) : Tree (grown T pname parent comp leaf) := by
  have pnamed := (tree.named pname parent above).1
  have kept (other : Name) (stored : (T other).isSome = true) : (grown T pname parent comp leaf other).isSome = true :=
    isSome_update _ _ _ _ (isSome_update _ _ _ _ stored)
  have parentHere : grown T pname parent comp leaf pname = some {parent with children := parent.children ++ [comp]} := by
    rw [grown,Function.update_of_ne (Paths.child_ne component).symm,Function.update_self]
  have unlisted : comp ∉ parent.children := by
    intro listed
    have stored := (tree.stored pname parent above comp listed).2
    rw [missing] at stored
    cases stored
  refine ⟨kept root tree.rooted,?_,?_,?_⟩
  · intro other found is
    obtain ⟨rfl,_⟩ | ⟨rfl,_⟩ | ⟨_,_,was⟩ := grown_cases is
    · exact ⟨.child pnamed component,short⟩
    · exact tree.named _ parent above
    · exact tree.named other found was
  · intro other found is notRoot
    -- Only the parent's list has changed, and only by a name that was not in it.
    have lists (above' : Node) (stored : T (getParent other) = some above') (once : above'.children.count (basename other) = 1) :
        ∃ now, grown T pname parent comp leaf (getParent other) = some now ∧ now.children.count (basename other) = 1 := by
      by_cases same : getParent other = pname
      · rw [same] at stored ⊢
        rw [above] at stored
        cases stored
        refine ⟨_,parentHere,?_⟩
        have differs : comp ≠ basename other := fun eq => unlisted (eq ▸ List.count_pos_iff.mp (by omega))
        rw [List.count_append,once,List.count_singleton,if_neg (by simpa using differs)]
      · refine ⟨above',?_,once⟩
        rw [grown,Function.update_of_ne,Function.update_of_ne same,stored]
        intro eq
        rw [eq,missing] at stored
        cases stored
    obtain ⟨rfl,_⟩ | ⟨rfl,_⟩ | ⟨_,_,was⟩ := grown_cases is
    · rw [getParent,basename,Paths.parent_child pnamed component,Paths.afterLast_child component]
      refine ⟨_,parentHere,?_⟩
      rw [List.count_append,List.count_eq_zero.mpr unlisted]
      simp
    · obtain ⟨above',stored,once⟩ := tree.listed _ parent above notRoot
      exact lists above' stored once
    · obtain ⟨above',stored,once⟩ := tree.listed other found was notRoot
      exact lists above' stored once
  · intro other found is child member
    obtain ⟨rfl,rfl⟩ | ⟨rfl,rfl⟩ | ⟨_,_,was⟩ := grown_cases is
    · rw [bare] at member
      cases member
    · rcases List.mem_append.mp member with old | new
      · obtain ⟨isComponent,stored⟩ := tree.stored _ parent above child old
        exact ⟨isComponent,kept _ stored⟩
      · rw [List.mem_singleton.mp new]
        refine ⟨component,?_⟩
        rw [grown,Function.update_self]
        rfl
    · obtain ⟨isComponent,stored⟩ := tree.stored other found was child member
      exact ⟨isComponent,kept _ stored⟩

-- A list of nodes to write, the deepest first.
def over_ (S : Store) (chain : List (Name × Node)) : Store := chain.foldr (fun entry T => Function.update T entry.1 (some entry.2)) S

theorem over_apart (chain : List (Name × Node)) (apart : name ∉ chain.map Prod.fst) : over_ S chain name = S name := by
  induction chain with
  | nil => rfl
  | cons entry rest ih =>
    rw [List.map_cons,List.mem_cons,not_or] at apart
    rw [over_,List.foldr_cons,Function.update_of_ne apart.1]
    exact ih apart.2

-- Nodes constructed for `name` over a tree: written together they make a tree,
-- and all but the last are new.
structure Built (S : Store) (name : Name) (node : Node) (rest : List (Name × Node)) : Prop where
  tree : Tree (over_ S ((name,node) :: rest))
  shorter : (name :: rest.map Prod.fst).Pairwise fun longer shorter => shorter.length < longer.length
  fresh : ∀ n ∈ (name :: rest.map Prod.fst).dropLast, S n = none

theorem Built.stored (tree : Tree S) (here : S name = some node) : Built S name node [] := by
  refine ⟨?_,by simp,by simp⟩
  change Tree (Function.update S name (some node))
  rw [← here,Function.update_eq_self]
  exact tree

theorem Built.grow {rest : List (Name × Node)} (built : Built S pname parent rest) (component : Component '/' comp)
    (missing : S (Paths.child '/' pname comp) = none) (short : (Paths.child '/' pname comp).length ≤ xenstoreAbsPathMax)
    (leaf : Node) (bare : leaf.children = []) :
    Built S (Paths.child '/' pname comp) leaf ((pname,{parent with children := parent.children ++ [comp]}) :: rest) := by
  have longer := Paths.length_child pname component
  have above : ∀ n ∈ pname :: rest.map Prod.fst, n.length < (Paths.child '/' pname comp).length := by
    intro n member
    rcases List.mem_cons.mp member with rfl | later
    · exact longer
    · exact Nat.lt_trans ((List.pairwise_cons.mp built.shorter).1 n later) longer
  refine ⟨?_,List.pairwise_cons.mpr ⟨above,built.shorter⟩,?_⟩
  · have here : over_ S ((pname,parent) :: rest) pname = some parent := Function.update_self ..
    have absent : over_ S ((pname,parent) :: rest) (Paths.child '/' pname comp) = none := by
      rw [over_apart _ fun member => Nat.lt_irrefl _ (above _ member)]
      exact missing
    have tree := tree_grow built.tree here component absent short leaf bare
    rw [grown,over_,List.foldr_cons,Function.update_idem] at tree
    exact tree
  · intro n member
    rw [List.map_cons,List.dropLast_cons_cons] at member
    rcases List.mem_cons.mp member with rfl | later
    · exact missing
    · exact built.fresh n later

-- Nothing is written, and what is returned is a chain.
def Constructs (S : Store) (name : Name) (result : View × Option (Node × List (Name × Node))) : Prop :=
  result.1.store = S ∧ ∀ node rest, result.2 = some (node,rest) → Built S name node rest

theorem constructUnder_built {rest : List (Name × Node)} (same : v.store = S) (built : Built S pname parent rest) (pnamed : Named '/' pname)
    (component : Component '/' comp) (missing : S (Paths.child '/' pname comp) = none)
    (short : (Paths.child '/' pname comp).length ≤ xenstoreAbsPathMax) :
    Constructs S (Paths.child '/' pname comp) (constructUnder c v (Paths.child '/' pname comp) parent rest) := by
  unfold constructUnder
  split
  · exact ⟨same,fun _ _ found => by cases found⟩
  · refine ⟨by rw [domainEntryInc_store]; exact same,fun node more found => ?_⟩
    rw [getParent,basename,Paths.parent_child pnamed component,Paths.afterLast_child component] at found
    cases found
    exact built.grow component missing short _ rfl

theorem constructNode_built (tree : Tree v.store) (named : Named '/' name) (short : name.length ≤ xenstoreAbsPathMax)
    (missing : v.store name = none) (fuel : Nat) (enough : name.length ≤ fuel) :
    Constructs v.store name (constructNode c fuel v name) := by
  induction named generalizing fuel with
  | root => exact absurd rfl (tree.missing_below missing)
  | @child path comp named component ih =>
    have longer := Paths.length_child path component
    obtain ⟨more,rfl⟩ : ∃ more, fuel = more + 1 := ⟨fuel - 1,by omega⟩
    have up : getParent (Paths.child '/' path comp) = path := Paths.parent_child named component
    rw [constructNode,up]
    cases here : v.store path with
    | some parent => exact constructUnder_built rfl (.stored tree here) named component missing short
    | none =>
      obtain ⟨same,built⟩ := ih (by omega) here more (by omega)
      dsimp only
      split
      · rename_i eq
        rw [eq] at same
        exact ⟨same,fun _ _ found => by cases found⟩
      · rename_i eq
        rw [eq] at same built
        exact constructUnder_built same (built _ _ rfl) named component missing short

theorem destroyNodes_store (v : View) (written : List Name) (name : Name) :
    (destroyNodes v written).store name = if name ∈ written then none else v.store name := by
  induction written generalizing v with
  | nil => rfl
  | cons first rest ih =>
    have later := ih (put v first none)
    rw [destroyNodes] at later ⊢
    rw [List.foldl_cons,later]
    by_cases same : name = first
    · subst same
      simp [put]
    · simp [put,same]

-- Writing the deepest first comes to the same, and a write that fails takes
-- back those before it.
theorem over_comm (chain : List (Name × Node)) (apart : name ∉ chain.map Prod.fst) :
    over_ (Function.update S name (some node)) chain = Function.update (over_ S chain) name (some node) := by
  induction chain with
  | nil => rfl
  | cons entry rest ih =>
    rw [List.map_cons,List.mem_cons,not_or] at apart
    change Function.update (over_ (Function.update S name (some node)) rest) entry.1 (some entry.2) =
      Function.update (Function.update (over_ S rest) entry.1 (some entry.2)) name (some node)
    rw [ih apart.2,Function.update_comm apart.1]

theorem writeNodes_store (chain : List (Name × Node)) (written : List Name)
    (shorter : (chain.map Prod.fst).Pairwise fun longer shorter => shorter.length < longer.length)
    (fresh : ∀ n ∈ (chain.map Prod.fst).dropLast, S n = none) (were : ∀ n ∈ written, S n = none)
    (rest : ∀ n, n ∉ written → v.store n = S n) :
    ((writeNodes c v chain written).2 = none ∧ (writeNodes c v chain written).1.store = over_ v.store chain) ∨
      (∃ errno, (writeNodes c v chain written).2 = some errno) ∧ (writeNodes c v chain written).1.store = S := by
  induction chain generalizing v written with
  | nil => exact .inl ⟨rfl,rfl⟩
  | cons entry more ih =>
    obtain ⟨name,node⟩ := entry
    rw [writeNodes]
    cases wrote : writeNode c v name node with
    | none =>
      refine .inr ⟨⟨_,rfl⟩,funext fun n => ?_⟩
      dsimp only
      rw [destroyNodes_store,domainEntryDec_store]
      split
      · exact (were n ‹_›).symm
      · exact rest n ‹_›
    | some w =>
      dsimp only
      have stored := writeNode_store wrote
      cases more with
      | nil => exact .inl ⟨rfl,stored⟩
      | cons next more =>
        rw [List.map_cons,List.pairwise_cons] at shorter
        rw [List.map_cons,List.map_cons,List.dropLast_cons_cons,← List.map_cons] at fresh
        have apart : name ∉ (next :: more).map Prod.fst := fun member => Nat.lt_irrefl _ (shorter.1 name member)
        have new : S name = none := fresh name List.mem_cons_self
        have were' : ∀ n ∈ name :: written, S n = none := by
          intro n member
          rcases List.mem_cons.mp member with rfl | before
          · exact new
          · exact were n before
        have rest' : ∀ n, n ∉ name :: written → w.store n = S n := by
          intro n outside
          rw [List.mem_cons,not_or] at outside
          rw [stored,Function.update_of_ne outside.1]
          exact rest n outside.2
        rcases ih (name :: written) shorter.2 (fun n member => fresh n (List.mem_cons_of_mem _ member)) were' rest' with done | failed
        · refine .inl ⟨done.1,?_⟩
          rw [done.2,stored,over_comm _ apart]
          rfl
        · exact .inr failed

-- An answered creation adds to the tree, a failed one leaves the database as it was.
theorem createNode_store (tree : Tree v.store) (named : Named '/' name) (short : name.length ≤ xenstoreAbsPathMax)
    (missing : v.store name = none) (data : List UInt8) :
    ((createNode c v name data).2 = none ∧ Tree (createNode c v name data).1.store) ∨
      (∃ errno, (createNode c v name data).2 = some errno) ∧ (createNode c v name data).1.store = v.store := by
  obtain ⟨same,built⟩ := constructNode_built (c:=c) tree named short missing name.length (Nat.le_refl _)
  unfold createNode
  split
  · rename_i eq
    rw [eq] at same
    exact .inr ⟨⟨_,rfl⟩,same⟩
  · rename_i w node rest eq
    rw [eq] at same built
    have chain := built node rest rfl
    have here : over_ v.store ((name,node) :: rest) name = some node := Function.update_self ..
    have tree' := tree_rewrite chain.tree here {node with data := data} rfl
    rw [over_,List.foldr_cons,Function.update_idem] at tree'
    rcases writeNodes_store (c:=c) (v:=w) (S:=v.store) ((name,{node with data := data}) :: rest) [] chain.shorter chain.fresh (by simp)
      (fun n _ => congrFun same n) with done | failed
    · refine .inl ⟨done.1,?_⟩
      rw [done.2,show w.store = v.store from same]
      exact tree'
    · exact .inr failed

end XenAet.XenstoreTree
