import XenAet.XenstoreNode

namespace XenAet.XenstoreSilence
open XenAet.XenstoreNode
open Library
open Library.Paths (Named Component Under)

variable {a b store : Store} {c : Requester} {name : Name}

-- The loop of `ask_parents` stops at the last stored name of the path: the next
-- one is missing.
structure Edge (store : Store) (name : Name) (node : Node) where
  path : Name
  comp : Name
  named : Named '/' path
  component : Component '/' comp
  stored : store path = some node
  missing : store (Paths.child '/' path comp) = none
  above : Under '/' (Paths.child '/' path comp) name

theorem nearest_edge (tree : Tree store) (named : Named '/' name) (missing : store name = none) (turns : Nat)
    (enough : name.length ≤ turns) : ∃ node, nearest store turns name = some node ∧ Nonempty (Edge store name node) := by
  induction named generalizing turns with
  | root => exact absurd rfl (tree.missing_below missing)
  | @child path comp named component ih =>
    have longer := Paths.length_child path component
    obtain ⟨more,rfl⟩ : ∃ more, turns = more + 1 := ⟨turns - 1,by omega⟩
    have up : getParent (Paths.child '/' path comp) = path := Paths.parent_child named component
    rw [nearest,up]
    cases here : store path with
    | some node => exact ⟨node,rfl,⟨⟨path,comp,named,component,here,missing,.self⟩⟩⟩
    | none =>
      dsimp only
      rw [if_neg (tree.missing_below here)]
      obtain ⟨node,found,⟨edge⟩⟩ := ih here more (by omega)
      exact ⟨node,found,⟨⟨edge.path,edge.comp,edge.named,edge.component,edge.stored,edge.missing,.child edge.above component⟩⟩⟩

-- A missing name is not listed by the node it would belong to.
theorem Edge.unlisted {node : Node} (tree : Tree store) (edge : Edge store name node) : edge.comp ∉ node.children := by
  intro listed
  have stored := (tree.stored _ node edge.stored _ listed).2
  rw [edge.missing] at stored
  cases stored

-- In the other store, which has the same node there, the name is missing too.
theorem Edge.across {node : Node} (treeA : Tree a) (treeB : Tree b) (edge : Edge a name node) (same : b edge.path = some node) :
    b (Paths.child '/' edge.path edge.comp) = none := by
  cases there : b (Paths.child '/' edge.path edge.comp) with
  | none => rfl
  | some child =>
    have once := treeB.child_listed edge.named edge.component same (by rw [there]; rfl)
    exact absurd (List.count_pos_iff.mp (by omega)) (edge.unlisted treeA)

theorem Edge.unique {node other : Node} (tree : Tree store) (edge : Edge store name node) (edge' : Edge store name other) :
    node = other := by
  have below {node other : Node} (one : Edge store name node) (two : Edge store name other) (under : Under '/' one.path two.path) :
      one.path = two.path := by
    by_contra differ
    obtain ⟨comp,component,first⟩ := under.first (Ne.symm differ)
    have path : Under '/' (Paths.child '/' two.path two.comp) name := two.above
    have whole : Under '/' (Paths.child '/' one.path comp) name := first.trans (path.of_child two.component)
    have same := Under.apart one.named component one.component whole one.above
    subst same
    have stored := tree.above_stored (.child one.named component) first (by rw [two.stored]; rfl)
    rw [one.missing] at stored
    cases stored
  have paths : edge.path = edge'.path := by
    rcases Under.comparable edge.named edge'.named (edge.above.of_child edge.component) (edge'.above.of_child edge'.component)
      with under | under
    · exact below edge edge' under
    · exact (below edge' edge under).symm
  have stored := edge.stored
  rw [paths,edge'.stored] at stored
  exact (Option.some.inj stored).symm

def Readable (store : Store) (c : Requester) (name : Name) : Prop :=
  ∃ node, store name = some node ∧ (permForConn c node).covers toRead = true

def Agree (a b : Store) (c : Requester) : Prop := ∀ name, Readable a c name ∨ Readable b c name → a name = b name

theorem Agree.symm (agree : Agree a b c) : Agree b a c := fun name readable => (agree name readable.symm).symm

theorem covers_toRead (rights : Rights) : rights.covers toRead = rights.read := by simp [Rights.covers,toRead]

theorem meets_toRead (rights : Rights) : rights.meets toRead = rights.read := by simp [Rights.meets,toRead]

-- A refused reader is told that the node is missing only where it is, and where
-- the nearest stored node above is one it may read.
def told (store : Store) (c : Requester) (name : Name) : Bool := (store name).isNone && (askParents store c name).read

theorem getNode_refused (valid : isValidNodename name = true) (refused : ¬Readable store c name) :
    getNode store c (some name) toRead = .error (if told store c name then .ENOENT else .EACCES) := by
  rw [getNode]
  rw [if_neg (by rw [valid]; decide)]
  cases here : store name with
  | none =>
    dsimp only
    rw [errnoFromParents,meets_toRead,told,here,Option.isNone_none,Bool.true_and]
  | some node =>
    dsimp only
    rw [if_neg fun covers => refused ⟨node,here,covers⟩,errnoFromParents,told,here,ite_self]
    rfl

theorem told_agree (treeA : Tree a) (treeB : Tree b) (agree : Agree a b c) (named : Named '/' name)
    (tells : told a c name = true) : told b c name = true := by
  rw [told,Bool.and_eq_true,Option.isNone_iff_eq_none] at tells ⊢
  obtain ⟨missing,may⟩ := tells
  obtain ⟨node,found,⟨edge⟩⟩ := nearest_edge treeA named missing name.length (Nat.le_refl _)
  rw [askParents,found] at may
  have same := agree edge.path (.inl ⟨node,edge.stored,by rw [covers_toRead]; exact may⟩)
  have there : b edge.path = some node := same.symm.trans edge.stored
  have gone := edge.across treeA treeB there
  have missing' : b name = none := by
    cases here : b name with
    | none => rfl
    | some _ =>
      have stored := treeB.above_stored (.child edge.named edge.component) edge.above (by rw [here]; rfl)
      rw [gone] at stored
      cases stored
  obtain ⟨node',found',⟨edge'⟩⟩ := nearest_edge treeB named missing' name.length (Nat.le_refl _)
  have here : Edge b name node := ⟨edge.path,edge.comp,edge.named,edge.component,there,gone,edge.above⟩
  rw [edge'.unique treeB here] at found'
  rw [askParents,found']
  exact ⟨missing',may⟩

theorem getNode_agree (treeA : Tree a) (treeB : Tree b) (agree : Agree a b c) (name : Option Name) :
    getNode a c name toRead = getNode b c name toRead := by
  cases name with
  | none => rfl
  | some name =>
    cases valid : isValidNodename name with
    | false =>
      rw [getNode,getNode]
      rw [if_pos valid,if_pos valid]
    | true =>
      by_cases readable : Readable a c name ∨ Readable b c name
      · have same := agree name readable
        have holds : ∃ node, a name = some node ∧ (permForConn c node).covers toRead = true := by
          rcases readable with here | ⟨node,there,covers⟩
          · exact here
          · exact ⟨node,same.trans there,covers⟩
        obtain ⟨node,here,covers⟩ := holds
        rw [getNode,getNode]
        rw [if_neg (by rw [valid]; decide),if_neg (by rw [valid]; decide),← same,here]
        dsimp only
        rw [if_pos covers,if_pos covers]
      · rw [getNode_refused valid (fun here => readable (.inl here)),getNode_refused valid (fun there => readable (.inr there))]
        have named := valid_named valid
        have both : told a c name = told b c name :=
          Bool.eq_iff_iff.mpr ⟨told_agree treeA treeB agree named,told_agree treeB treeA agree.symm named⟩
        rw [both]

inductive Query where
  | read
  | directory
  | getPerms

def answer (store : Store) (c : Requester) (name : Option Name) : Query → Reply
  | .read => doRead store c name
  | .directory => sendDirectory store c name
  | .getPerms => doGetPerms store c name

theorem unreadable_nodes_silent (treeA : Tree a) (treeB : Tree b) (agree : Agree a b c) (name : Option Name) (query : Query) :
    answer a c name query = answer b c name query := by
  have same := getNode_agree treeA treeB agree (canonicalize c name)
  cases query with
  | read => rw [answer,answer,doRead,doRead,same]
  | directory => rw [answer,answer,sendDirectory,sendDirectory,same]
  | getPerms => rw [answer,answer,doGetPerms,doGetPerms,same]

def openNode (children : List Name) : Node := ⟨⟨0,true,false⟩,[],[],children⟩

def secretNode (data : List UInt8) : Node := ⟨⟨0,false,false⟩,[],data,[]⟩

-- A root anyone may read over one node that only its owner may.
def twoNodes (data : List UInt8) : Store := fun name =>
  if name = root then some (openNode [['a']]) else if name = ['/','a'] then some (secretNode data) else none

def guest : Requester := ⟨3,true,true,true,none,['/','d']⟩

theorem twoNodes_cases (here : twoNodes data name = some node) :
    name = root ∧ node = openNode [['a']] ∨ name = ['/','a'] ∧ node = secretNode data := by
  rw [twoNodes] at here
  split at here
  · exact .inl ⟨‹_›,by cases here; rfl⟩
  · split at here
    · exact .inr ⟨‹_›,by cases here; rfl⟩
    · cases here

theorem twoNodes_tree (data : List UInt8) : Tree (twoNodes data) := by
  have component : Component '/' ['a'] := ⟨by decide,by decide⟩
  have leaf : Named '/' ['/','a'] := Named.child .root component
  refine ⟨rfl,fun name node here => ?_,fun name node here notRoot => ?_,fun name node here comp mem => ?_⟩
  · obtain ⟨rfl,_⟩ | ⟨rfl,_⟩ := twoNodes_cases here
    · exact ⟨.root,by decide⟩
    · exact ⟨leaf,by decide⟩
  · obtain ⟨rfl,_⟩ | ⟨rfl,_⟩ := twoNodes_cases here
    · exact absurd rfl notRoot
    · exact ⟨openNode [['a']],rfl,rfl⟩
  · obtain ⟨rfl,rfl⟩ | ⟨rfl,rfl⟩ := twoNodes_cases here
    · rw [List.mem_singleton.mp mem]
      exact ⟨component,rfl⟩
    · cases mem

theorem twoNodes_agree (data data' : List UInt8) : Agree (twoNodes data) (twoNodes data') guest := by
  have dark : ∀ bytes, ¬(permForConn guest (secretNode bytes)).covers toRead = true := by
    intro bytes covers
    cases covers
  intro name readable
  rcases readable with ⟨node,here,covers⟩ | ⟨node,here,covers⟩ <;>
    obtain ⟨rfl,rfl⟩ | ⟨rfl,rfl⟩ := twoNodes_cases here
  · rfl
  · exact absurd covers (dark _)
  · rfl
  · exact absurd covers (dark _)

theorem unreadable_nodes_silent_secret :
    answer (twoNodes [1]) guest (some ['/','a']) .read = answer (twoNodes [2,3]) guest (some ['/','a']) .read :=
  unreadable_nodes_silent (twoNodes_tree [1]) (twoNodes_tree [2,3]) (twoNodes_agree [1] [2,3]) _ _

end XenAet.XenstoreSilence
