import Mathlib.Data.List.Nodup
import XenAet.XenstoreTree

namespace XenAet.XenstoreRemove
open XenAet.XenstoreNode XenAet.XenstoreWrite XenAet.XenstoreTree
open Library
open Library.Paths (Named Component Under)

variable {c : Requester} {v w : View} {T before after : Store} {name comp : Name} {node parent : Node}

-- Everything from `name` downwards is gone and nothing else has changed.
structure Cleared (name : Name) (before after : Store) : Prop where
  gone : ∀ m, Under '/' name m → after m = none
  kept : ∀ m, ¬Under '/' name m → after m = before m

theorem children_nodup (tree : Tree T) (here : T name = some node) : node.children.Nodup := by
  rw [List.nodup_iff_count_le_one]
  intro comp
  by_cases listed : comp ∈ node.children
  · obtain ⟨component,stored⟩ := tree.stored name node here comp listed
    exact Nat.le_of_eq (tree.child_listed (tree.named name node here).1 component here stored)
  · rw [List.count_eq_zero.mpr listed]
    exact Nat.zero_le 1

def deleteBelow (c : Requester) (fuel : Nat) (name : Name) (v : View) (comp : Name) : View :=
  match v.store (name ++ '/' :: comp) with
  | some child => deleteNode c fuel v (name ++ '/' :: comp) child
  | none => v

theorem deleteNode_succ (fuel : Nat) :
    deleteNode c (fuel + 1) v name node = node.children.foldl (deleteBelow c fuel name) (deleteNodeSingle c v name node) := rfl

theorem plain_child (notRoot : name ≠ root) (comp : Name) : name ++ '/' :: comp = Paths.child '/' name comp := by
  rw [Paths.child,if_neg (show name ≠ ['/'] from notRoot)]

-- The loop over the children, each of whose subtrees is still as it was in the
-- tree when its turn comes.
theorem deleteBelow_each (named : Named '/' name) (fuel : Nat) (todo : List Name) (nodup : todo.Nodup)
    (components : ∀ comp ∈ todo, Component '/' comp)
    (clears : ∀ comp ∈ todo, ∀ v : View, (∀ m, Under '/' (Paths.child '/' name comp) m → v.store m = T m) →
      Cleared (Paths.child '/' name comp) v.store (deleteBelow c fuel name v comp).store)
    (agree : ∀ comp ∈ todo, ∀ m, Under '/' (Paths.child '/' name comp) m → v.store m = T m) :
    (∀ comp ∈ todo, ∀ m, Under '/' (Paths.child '/' name comp) m → (todo.foldl (deleteBelow c fuel name) v).store m = none) ∧
      ∀ m, (∀ comp ∈ todo, ¬Under '/' (Paths.child '/' name comp) m) →
        (todo.foldl (deleteBelow c fuel name) v).store m = v.store m := by
  induction todo generalizing v with
  | nil => exact ⟨by simp,fun _ _ => rfl⟩
  | cons comp rest ih =>
    have cleared := clears comp List.mem_cons_self v (agree comp List.mem_cons_self)
    have elsewhere : ∀ other ∈ rest, ∀ m, Under '/' (Paths.child '/' name other) m → ¬Under '/' (Paths.child '/' name comp) m := by
      intro other member m under here
      have same := Under.apart named (components other (List.mem_cons_of_mem _ member)) (components comp List.mem_cons_self) under here
      exact (List.nodup_cons.mp nodup).1 (same ▸ member)
    have agree' : ∀ other ∈ rest, ∀ m, Under '/' (Paths.child '/' name other) m → (deleteBelow c fuel name v comp).store m = T m := by
      intro other member m under
      rw [cleared.kept m (elsewhere other member m under)]
      exact agree other (List.mem_cons_of_mem _ member) m under
    obtain ⟨gone,kept⟩ := ih (List.nodup_cons.mp nodup).2 (fun other member => components other (List.mem_cons_of_mem _ member))
      (fun other member => clears other (List.mem_cons_of_mem _ member)) agree'
    refine ⟨fun other member m under => ?_,fun m outside => ?_⟩
    · rcases List.mem_cons.mp member with rfl | later
      · rw [List.foldl_cons,kept m fun next later below => elsewhere next later m below under]
        exact cleared.gone m under
      · exact gone other later m under
    · rw [List.foldl_cons,kept m fun next later => outside next (List.mem_cons_of_mem _ later)]
      exact cleared.kept m (outside comp List.mem_cons_self)

theorem deleteNode_cleared (tree : Tree T) (here : T name = some node) (notRoot : name ≠ root)
    (agree : ∀ m, Under '/' name m → v.store m = T m) (fuel : Nat) (enough : xenstoreAbsPathMax < name.length + fuel) :
    Cleared name v.store (deleteNode c fuel v name node).store := by
  induction fuel generalizing name node v with
  | zero =>
    have short := (tree.named name node here).2
    omega
  | succ fuel ih =>
    obtain ⟨named,_⟩ := tree.named name node here
    have components : ∀ comp ∈ node.children, Component '/' comp := fun comp listed => (tree.stored name node here comp listed).1
    have single : (deleteNodeSingle c v name node).store = Function.update v.store name none := by
      rw [deleteNodeSingle,domainEntryDec_store]
      rfl
    have ne_self (comp : Name) (component : Component '/' comp) (m : Name) (under : Under '/' (Paths.child '/' name comp) m) : m ≠ name := by
      rintro rfl
      exact absurd under.length_le (Nat.not_le_of_lt (Paths.length_child m component))
    have clears : ∀ comp ∈ node.children, ∀ v : View, (∀ m, Under '/' (Paths.child '/' name comp) m → v.store m = T m) →
        Cleared (Paths.child '/' name comp) v.store (deleteBelow c fuel name v comp).store := by
      intro comp listed v agree
      obtain ⟨component,stored⟩ := tree.stored name node here comp listed
      obtain ⟨child,is⟩ := Option.isSome_iff_exists.mp stored
      have longer := Paths.length_child name component
      rw [deleteBelow,plain_child notRoot,agree _ .self,is]
      exact ih is (Paths.child_ne_root component) agree (by omega)
    have agree' : ∀ comp ∈ node.children, ∀ m, Under '/' (Paths.child '/' name comp) m → (deleteNodeSingle c v name node).store m = T m := by
      intro comp listed m under
      rw [single,Function.update_of_ne (ne_self comp (components comp listed) m under)]
      exact agree m (under.of_child (components comp listed))
    obtain ⟨gone,kept⟩ := deleteBelow_each (c:=c) named fuel node.children (children_nodup tree here) components clears agree'
    rw [deleteNode_succ]
    refine ⟨fun m under => ?_,fun m outside => ?_⟩
    · by_cases self : m = name
      · rw [self,kept name fun comp listed below => ne_self comp (components comp listed) name below rfl,single,Function.update_self]
      · obtain ⟨comp,component,below⟩ := under.first self
        by_cases listed : comp ∈ node.children
        · exact gone comp listed m below
        · -- What is not listed is not stored, nor anything under it.
          have unstored : T m = none := by
            by_contra stored
            have isSome := tree.above_stored (.child named component) below (Option.ne_none_iff_isSome.mp stored)
            have once := tree.child_listed named component here isSome
            exact listed (List.count_pos_iff.mp (by omega))
          rw [kept m fun other isListed other_ =>
            listed (Under.apart named (components other isListed) component other_ below ▸ isListed)]
          rw [single,Function.update_of_ne self,agree m under]
          exact unstored
    · rw [kept m fun comp listed below => outside (below.of_child (components comp listed)),single,
        Function.update_of_ne fun self => outside (by rw [self]; exact .self)]

-- The parent loses its entry first, then everything from the child downwards goes.
def pruned (T : Store) (name : Name) (parent : Node) : Store :=
  Function.update T (getParent name) (some {parent with children := parent.children.erase (basename name)})

theorem tree_prune (tree : Tree T) (here : T name = some node) (notRoot : name ≠ root) (above : T (getParent name) = some parent)
    (cleared : Cleared name (pruned T name parent) after) : Tree after := by
  obtain ⟨named,_⟩ := tree.named name node here
  obtain ⟨pnamed,component,eq⟩ := named.eq_child notRoot
  change Named '/' (getParent name) at pnamed
  change Component '/' (basename name) at component
  change name = Paths.child '/' (getParent name) (basename name) at eq
  have once : parent.children.count (basename name) = 1 := by
    refine tree.child_listed pnamed component above ?_
    rw [← eq,here]
    rfl
  have outsideParent : ¬Under '/' name (getParent name) := by
    intro under
    have longer := Paths.length_child (getParent name) component
    rw [← eq] at longer
    exact absurd under.length_le (Nat.not_le_of_lt longer)
  have parentNow : after (getParent name) = some {parent with children := parent.children.erase (basename name)} := by
    rw [cleared.kept _ outsideParent,pruned,Function.update_self]
  have otherNow (m : Name) (outside : ¬Under '/' name m) (other : m ≠ getParent name) : after m = T m := by
    rw [cleared.kept m outside,pruned,Function.update_of_ne other]
  have stays (m : Name) (outside : ¬Under '/' name m) (stored : (T m).isSome = true) : (after m).isSome = true := by
    by_cases other : m = getParent name
    · rw [other,parentNow]
      rfl
    · rw [otherNow m outside other]
      exact stored
  -- A node that is left lists what it did, less the removed name in the parent.
  have was (m : Name) (found : Node) (is : after m = some found) : ¬Under '/' name m ∧ ∃ old, T m = some old ∧
      (∀ comp ∈ found.children, comp ∈ old.children) ∧ (m = getParent name → found.children.count (basename name) = 0) := by
    have outside : ¬Under '/' name m := by
      intro under
      rw [cleared.gone m under] at is
      cases is
    refine ⟨outside,?_⟩
    by_cases other : m = getParent name
    · rw [other,parentNow] at is
      cases is
      refine ⟨parent,other ▸ above,fun comp => List.mem_of_mem_erase,fun _ => ?_⟩
      rw [List.count_erase_self,once]
    · rw [otherNow m outside other] at is
      exact ⟨found,is,fun _ listed => listed,fun same => absurd same other⟩
  refine ⟨stays root (fun under => notRoot under.root_eq) tree.rooted,?_,?_,?_⟩
  · intro m found is
    obtain ⟨_,old,stored,_⟩ := was m found is
    exact tree.named m old stored
  · intro m found is mNotRoot
    obtain ⟨outside,old,stored,_⟩ := was m found is
    obtain ⟨mNamed,_⟩ := tree.named m old stored
    obtain ⟨up,isUp,upOnce⟩ := tree.listed m old stored mNotRoot
    have upOutside : ¬Under '/' name (getParent m) := fun under => outside (under.of_parent mNamed mNotRoot)
    by_cases same : getParent m = getParent name
    · rw [same] at isUp ⊢
      rw [above] at isUp
      cases isUp
      refine ⟨_,parentNow,?_⟩
      have differs : basename m ≠ basename name := by
        intro base
        have whole := (mNamed.eq_child mNotRoot).2.2
        refine outside ?_
        rw [whole,show Paths.parent '/' m = getParent name from same,show Paths.afterLast '/' m = basename name from base,← eq]
        exact .self
      rw [List.count_erase_of_ne differs]
      exact upOnce
    · exact ⟨up,by rw [otherNow _ upOutside same]; exact isUp,upOnce⟩
  · intro m found is comp listed
    obtain ⟨outside,old,stored,lists,lost⟩ := was m found is
    obtain ⟨isComponent,childStored⟩ := tree.stored m old stored comp (lists comp listed)
    refine ⟨isComponent,stays _ (fun under => ?_) childStored⟩
    have mNamed := (tree.named m old stored).1
    by_cases self : Paths.child '/' m comp = name
    · rw [eq] at self
      obtain ⟨isParent,isBase⟩ := Paths.child_inj mNamed isComponent pnamed component self
      have gone := lost isParent
      rw [← isBase] at gone
      exact List.count_eq_zero.mp gone listed
    · have up := under.parent named self
      rw [Paths.parent_child mNamed isComponent] at up
      exact outside up

theorem getNode_ok {arg : Option Name} {rights : Rights} (got : getNode T c arg rights = .ok (name,node)) :
    isValidNodename name = true ∧ T name = some node := by
  unfold getNode at got
  split at got
  · cases got
  · split at got
    · cases got
    · rename_i valid
      split at got
      · cases got
      · split at got
        · cases got
          exact ⟨eq_true_of_ne_false valid,‹_›⟩
        · cases got

theorem getNode_missing {arg : Option Name} {rights : Rights} (got : getNode T c arg rights = .error .ENOENT) :
    ∃ name, arg = some name ∧ isValidNodename name = true ∧ T name = none := by
  unfold getNode at got
  split at got
  · cases got
  · split at got
    · cases got
    · rename_i name valid
      split at got
      · exact ⟨name,rfl,eq_true_of_ne_false valid,‹_›⟩
      · split at got
        · cases got
        · unfold errnoFromParents at got
          split at got <;> cases got

-- What an answer says about the database: it is a tree again, and it is as it
-- was after an error and after a request that noted no change.
structure Settles (before : Store) (result : View × Reply) : Prop where
  tree : Tree result.1.store
  failed : ∀ errno, result.2 = .error errno → result.1.store = before
  unchanged : result.1.changed = false → result.1.store = before

theorem Settles.same {reply : Reply} (tree : Tree before) (same : v.store = before) : Settles before (v,reply) :=
  ⟨by rw [same]; exact tree,fun _ _ => same,fun _ => same⟩

theorem Settles.ack (tree : Tree v.store) : Settles before (addChangeNode v,.ack) :=
  ⟨tree,fun _ eq => (by cases eq),fun eq => (by cases eq)⟩

theorem createReply_settles (tree : Tree v.store) (valid : isValidNodename name = true) (missing : v.store name = none)
    (data : List UInt8) : Settles v.store (createReply c v (some name) data) := by
  have created := createNode_store (c:=c) tree (valid_named valid) (valid_length valid) missing data
  unfold createReply
  dsimp only [Option.getD_some]
  split
  · rename_i w errno eq
    rw [eq] at created
    obtain ⟨done,_⟩ | ⟨_,same⟩ := created
    · cases done
    · exact .same tree same
  · rename_i w eq
    rw [eq] at created
    obtain ⟨_,now⟩ | ⟨⟨_,failed⟩,_⟩ := created
    · exact .ack now
    · cases failed

theorem rewrite_settles (tree : Tree v.store) (here : v.store name = some node) (new : Node) (children : new.children = node.children)
    (w : View) (same : w.store = v.store) :
    Settles v.store (match writeNode c w name new with | none => (w,sendError .ENOSPC) | some v => (addChangeNode v,.ack)) := by
  cases wrote : writeNode c w name new with
  | none => exact .same tree same
  | some w' =>
    refine .ack ?_
    rw [writeNode_store wrote,same]
    exact tree_rewrite tree here new children

theorem doWrite_settles (tree : Tree v.store) (arg : Option Name) (data : List UInt8) : Settles v.store (doWrite c v arg data) := by
  unfold doWrite
  dsimp only
  split
  · rename_i got
    obtain ⟨name,is,valid,missing⟩ := getNode_missing got
    rw [is]
    exact createReply_settles tree valid missing data
  · exact .same tree rfl
  · rename_i name node got
    exact rewrite_settles tree (getNode_ok got).2 {node with data := data} rfl v rfl

theorem doMkdir_settles (tree : Tree v.store) (arg : Option Name) : Settles v.store (doMkdir c v arg) := by
  unfold doMkdir
  dsimp only
  split
  · rename_i got
    obtain ⟨name,is,valid,missing⟩ := getNode_missing got
    rw [is]
    exact createReply_settles tree valid missing []
  · exact .same tree rfl
  · exact .same tree rfl

theorem rm_tree (tree : Tree v.store) (here : v.store name = some node) (notRoot : name ≠ root) (removed : rm c v name node = some w) :
    Tree w.store := by
  unfold rm at removed
  split at removed
  · cases removed
  · rename_i parent above
    unfold deleteChild at removed
    split at removed
    · cases removed
    · rename_i v' wrote
      split at wrote
      · cases removed
        have stored := writeNode_store wrote
        have named := (tree.named name node here).1
        obtain ⟨_,component,eq⟩ := named.eq_child notRoot
        have longer := Paths.length_child (Paths.parent '/' name) component
        rw [← eq] at longer
        have agree : ∀ m, Under '/' name m → v'.store m = v.store m := by
          intro m under
          rw [stored,Function.update_of_ne]
          rintro rfl
          exact absurd under.length_le (Nat.not_le_of_lt longer)
        have cleared := deleteNode_cleared (c:=c) tree here notRoot agree xenstoreAbsPathMax (by omega)
        rw [stored] at cleared
        exact tree_prune tree here notRoot above cleared
      · cases wrote

theorem doRm_settles (tree : Tree v.store) (arg : Option Name) : Settles v.store (doRm c v arg) := by
  unfold doRm
  dsimp only
  split
  · split <;> exact .same tree rfl
  · exact .same tree rfl
  · rename_i name node got
    split
    · exact .same tree rfl
    · rename_i notRoot
      cases removed : rm c v name node with
      | none => exact .same tree rfl
      | some w => exact .ack (rm_tree tree (getNode_ok got).2 notRoot removed)

theorem doSetPerms_settles (tree : Tree v.store) (arg : Name) (strings : PermStrings) : Settles v.store (doSetPerms c v arg strings) := by
  unfold doSetPerms
  cases strings with
  | few => exact .same tree rfl
  | bad =>
    dsimp only
    split <;> exact .same tree rfl
  | perms owner others =>
    dsimp only
    split
    · exact .same tree rfl
    · rename_i name node got
      split
      · exact .same tree rfl
      · exact rewrite_settles tree (getNode_ok got).2 {node with owner := owner,others := others} rfl _ (by simp)

theorem handle_settles (tree : Tree v.store) (request : Request) : Settles v.store (handle c v request) := by
  cases request with
  | directory | read | getPerms => exact .same tree rfl
  | write name data => exact doWrite_settles tree name data
  | mkdir name => exact doMkdir_settles tree name
  | rm name => exact doRm_settles tree name
  | setPerms name strings => exact doSetPerms_settles tree name strings

end XenAet.XenstoreRemove
