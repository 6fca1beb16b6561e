import Mathlib.Data.List.Basic
import Mathlib.Data.List.DropRight
import Mathlib.Data.List.Infix

namespace Library.Paths
variable {α : Type} [DecidableEq α]

-- Absolute names: the root is the separator alone, and a child's name is its
-- parent's, a separator and one component.
def Component (sep : α) (comp : List α) : Prop := comp ≠ [] ∧ sep ∉ comp

def child (sep : α) (path comp : List α) : List α := if path = [sep] then sep :: comp else path ++ sep :: comp

inductive Named (sep : α) : List α → Prop where
  | root : Named sep [sep]
  | child {path comp : List α} : Named sep path → Component sep comp → Named sep (child sep path comp)

variable {sep : α} {name path comp : List α}

-- What stands before and after the last separator.
def beforeLast (sep : α) (name : List α) : List α := ((name.reverse.dropWhile (· ≠ sep)).drop 1).reverse

def afterLast (sep : α) (name : List α) : List α := (name.reverse.takeWhile (· ≠ sep)).reverse

def parent (sep : α) : List α → List α
  | [] => [sep]
  | first :: rest => if sep ∈ rest then first :: beforeLast sep rest else [sep]

theorem plain_reverse (plain : sep ∉ comp) : ∀ x ∈ comp.reverse, decide (x ≠ sep) = true := by
  intro x member
  rw [decide_eq_true_iff]
  rintro rfl
  exact plain (List.mem_reverse.mp member)

theorem afterLast_append (front : List α) (plain : sep ∉ comp) : afterLast sep (front ++ sep :: comp) = comp := by
  rw [afterLast,List.reverse_append,List.reverse_cons,List.append_assoc,List.takeWhile_append_of_pos (plain_reverse plain)]
  simp

theorem beforeLast_append (front : List α) (plain : sep ∉ comp) : beforeLast sep (front ++ sep :: comp) = front := by
  rw [beforeLast,List.reverse_append,List.reverse_cons,List.append_assoc,List.dropWhile_append_of_pos (plain_reverse plain)]
  simp

theorem afterLast_plain (sep : α) (name : List α) : sep ∉ afterLast sep name := by
  intro member
  rw [afterLast,List.mem_reverse] at member
  simpa using List.mem_takeWhile_imp member

-- Any list with a separator splits at its last one.
theorem split_last (here : sep ∈ name) : name = beforeLast sep name ++ sep :: afterLast sep name := by
  have whole := List.takeWhile_append_dropWhile (p:=fun x => decide (x ≠ sep)) (l:=name.reverse)
  cases tail : name.reverse.dropWhile fun x => decide (x ≠ sep) with
  | nil =>
    have all := List.dropWhile_eq_nil_iff.mp tail sep (List.mem_reverse.mpr here)
    simp at all
  | cons x rest =>
    have first : x = sep := by
      have not_ := List.head?_dropWhile_not (fun x => decide (x ≠ sep)) name.reverse
      rw [tail] at not_
      simpa using not_
    rw [beforeLast,afterLast,tail,List.drop_one,List.tail_cons,← List.reverse_reverse name]
    rw [tail,first] at whole
    conv_lhs => rw [← whole]
    simp

theorem Named.cons (named : Named sep name) : ∃ rest, name = sep :: rest := by
  induction named with
  | root => exact ⟨[],rfl⟩
  | @child path comp _ _ ih =>
    rw [Paths.child]
    split
    · exact ⟨comp,rfl⟩
    · obtain ⟨rest,rfl⟩ := ih
      exact ⟨rest ++ sep :: comp,rfl⟩

theorem parent_child (named : Named sep path) (component : Component sep comp) : parent sep (child sep path comp) = path := by
  obtain ⟨rest,rfl⟩ := named.cons
  rw [child]
  split
  · rename_i root
    rw [parent,if_neg component.2,root]
  · rw [List.cons_append,parent,if_pos (by simp),beforeLast_append _ component.2]

theorem afterLast_child (component : Component sep comp) : afterLast sep (child sep path comp) = comp := by
  rw [child]
  split
  · exact afterLast_append [] component.2
  · exact afterLast_append path component.2

theorem child_ne_root (component : Component sep comp) : child sep path comp ≠ [sep] := by
  rw [child]
  split
  · simpa using component.1
  · intro same
    have length := congrArg List.length same
    have pos := List.length_pos_of_ne_nil component.1
    simp only [List.length_append,List.length_cons,List.length_nil] at length
    omega

theorem Named.eq_child (named : Named sep name) (notRoot : name ≠ [sep]) :
    Named sep (parent sep name) ∧ Component sep (afterLast sep name) ∧
      name = Paths.child sep (parent sep name) (afterLast sep name) := by
  cases named with
  | root => exact absurd rfl notRoot
  | child named component =>
    rw [parent_child named component,afterLast_child component]
    exact ⟨named,component,rfl⟩

theorem child_inj {path' comp' : List α} (named : Named sep path) (component : Component sep comp) (named' : Named sep path')
    (component' : Component sep comp') (same : child sep path comp = child sep path' comp') : path = path' ∧ comp = comp' := by
  have parents := congrArg (parent sep) same
  have bases := congrArg (afterLast sep) same
  rw [parent_child named component,parent_child named' component'] at parents
  rw [afterLast_child component,afterLast_child component'] at bases
  exact ⟨parents,bases⟩

theorem length_child (path : List α) (component : Component sep comp) : path.length < (child sep path comp).length := by
  have pos := List.length_pos_of_ne_nil component.1
  rw [child]
  split
  · rename_i root
    rw [root]
    simpa using pos
  · simp

theorem child_ne (component : Component sep comp) : child sep path comp ≠ path := fun same => by
  have longer := length_child path component
  rw [same] at longer
  exact Nat.lt_irrefl _ longer

-- A list that starts with a separator, has no two in a row and does not end in
-- one is a name.
theorem named_of (name : List α) (starts : ∃ rest, name = sep :: rest) (ends : name = [sep] ∨ name.getLast? ≠ some sep)
    (single : ¬[sep,sep] <:+: name) : Named sep name := by
  obtain ⟨rest,is⟩ := starts
  by_cases inner : sep ∈ rest
  · have split := split_last inner
    have plain := afterLast_plain sep rest
    have whole : name = (sep :: beforeLast sep rest) ++ sep :: afterLast sep rest := by rw [is,List.cons_append,← split]
    have notRoot : name ≠ [sep] := by
      rw [is]
      simpa using List.ne_nil_of_mem inner
    have last := ends.resolve_left notRoot
    have component : Component sep (afterLast sep rest) := by
      refine ⟨fun empty => last ?_,plain⟩
      rw [whole,empty,List.getLast?_append]
      rfl
    have front : sep :: beforeLast sep rest ≠ [sep] := by
      intro root
      refine single ⟨[],afterLast sep rest,?_⟩
      rw [whole,root]
      rfl
    have frontEnd : (sep :: beforeLast sep rest).getLast? ≠ some sep := by
      intro isSep
      obtain ⟨init,eq⟩ := List.getLast?_eq_some_iff.mp isSep
      refine single ⟨init,afterLast sep rest,?_⟩
      rw [whole,eq]
      simp
    have frontSingle : ¬[sep,sep] <:+: sep :: beforeLast sep rest := fun inside =>
      single (inside.trans (by rw [whole]; exact (List.prefix_append _ _).isInfix))
    have named := named_of (sep :: beforeLast sep rest) ⟨_,rfl⟩ (.inr frontEnd) frontSingle
    have made := Named.child named component
    rw [child,if_neg front,← whole] at made
    exact made
  · by_cases empty : rest = []
    · rw [is,empty]
      exact .root
    · have made := Named.child .root ⟨empty,inner⟩
      rw [child,if_pos rfl,← is] at made
      exact made
termination_by name.length
decreasing_by
  rw [whole]
  simp

-- A name and everything below it.
inductive Under (sep : α) (path : List α) : List α → Prop where
  | self : Under sep path path
  | child {name comp : List α} : Under sep path name → Component sep comp → Under sep path (child sep name comp)

theorem Under.named (under : Under sep path name) (named : Named sep path) : Named sep name := by
  induction under with
  | self => exact named
  | child _ component ih => exact .child ih component

theorem Under.length_le (under : Under sep path name) : path.length ≤ name.length := by
  induction under with
  | self => exact Nat.le_refl _
  | @child name comp _ component ih => exact Nat.le_of_lt (Nat.lt_of_le_of_lt ih (length_child name component))

theorem Under.parent (under : Under sep path name) (named : Named sep path) (strict : name ≠ path) :
    Under sep path (Paths.parent sep name) := by
  cases under with
  | self => exact absurd rfl strict
  | child under component =>
    rw [parent_child (under.named named) component]
    exact under

theorem Under.of_parent (named : Named sep name) (notRoot : name ≠ [sep]) (under : Under sep path (Paths.parent sep name)) :
    Under sep path name := by
  obtain ⟨_,component,eq⟩ := named.eq_child notRoot
  rw [eq]
  exact .child under component

theorem Under.of_child (under : Under sep (Paths.child sep path comp) name) (component : Component sep comp) : Under sep path name := by
  induction under with
  | self => exact .child .self component
  | child _ component ih => exact .child ih component

theorem Under.first (under : Under sep path name) (strict : name ≠ path) :
    ∃ comp, Component sep comp ∧ Under sep (Paths.child sep path comp) name := by
  induction under with
  | self => exact absurd rfl strict
  | @child name comp under component ih =>
    by_cases self : name = path
    · subst self
      exact ⟨comp,component,.self⟩
    · obtain ⟨first,isComponent,below⟩ := ih self
      exact ⟨first,isComponent,.child below component⟩

theorem Under.root_eq (under : Under sep path [sep]) : path = [sep] := by
  generalize eq : [sep] = name at under
  cases under with
  | self => rfl
  | child _ component => exact absurd eq.symm (child_ne_root component)

theorem Under.trans {middle : List α} (upper : Under sep path middle) (lower : Under sep middle name) : Under sep path name := by
  induction lower with
  | self => exact upper
  | child _ component ih => exact .child ih component

-- Two names above one name lie one above the other.
theorem Under.comparable {other : List α} (named : Named sep path) (namedOther : Named sep other) (one : Under sep path name) (two : Under sep other name) :
    Under sep path other ∨ Under sep other path := by
  induction one with
  | self => exact .inr two
  | @child name comp one component ih =>
    by_cases same : Paths.child sep name comp = other
    · rw [← same]
      exact .inl (.child one component)
    · have up := two.parent namedOther same
      rw [parent_child (one.named named) component] at up
      exact ih up

-- Two children's subtrees have nothing in common.
theorem Under.apart {first second : List α} (named : Named sep path) (one : Component sep first) (two : Component sep second)
    (left : Under sep (Paths.child sep path first) name) (right : Under sep (Paths.child sep path second) name) :
    first = second := by
  have above {c d : List α} (component : Component sep c) (under : Under sep (Paths.child sep path c) (Paths.child sep path d))
      (isComponent : Component sep d) : c = d := by
    by_cases same : Paths.child sep path d = Paths.child sep path c
    · exact (child_inj named isComponent named component same).2.symm
    · have up := under.parent (.child named component) same
      rw [parent_child named isComponent] at up
      exact absurd up.length_le (Nat.not_le_of_lt (length_child path component))
  induction left with
  | self => exact (above two right one).symm
  | @child name comp left component ih =>
    by_cases same : Paths.child sep name comp = Paths.child sep path second
    · refine above one ?_ two
      rw [← same]
      exact .child left component
    · have up := right.parent (.child named two) same
      rw [parent_child (left.named (.child named one)) component] at up
      exact ih up

end Library.Paths
