import HookLint.Tree.Kind

/-!
Going through a syntax tree: the child nodes of a node in the order of its fields, all nodes from
a root outside in, and the parent of each node.
-/

namespace HookLint

def childless : List String := [
  "type", "loc", "range", "start", "end", "raw", "regex", "leadingComments", "trailingComments",
  "innerComments", "comments", "tokens", "errors"]

def fieldNodes (key : String) (value : Value) : List Value :=
  if childless.contains key then []
  else if value.isNode then [value]
  else match value with
    | .list items => items.filter Value.isNode
    | _ => []

def childNodes : List (String × Value) → List Value
  | [] => []
  | (key, value) :: rest => fieldNodes key value ++ childNodes rest

namespace Value

def children (value : Value) : List Value := childNodes value.fields

theorem sizeOf_append (a b : List Value) : sizeOf (a ++ b) + 1 = sizeOf a + sizeOf b := by
  induction a with
  | nil => simp; omega
  | cons value rest ih => simp; omega

theorem sizeOf_filter (keep : Value → Bool) (items : List Value) : sizeOf (items.filter keep) ≤ sizeOf items := by
  induction items with
  | nil => simp
  | cons value rest ih =>
    simp only [List.filter_cons]
    split <;> simp <;> omega

theorem sizeOf_reverse (items : List Value) : sizeOf items.reverse = sizeOf items := by
  induction items with
  | nil => simp
  | cons value rest ih =>
    have whole := sizeOf_append rest.reverse [value]
    simp at whole ⊢; omega

theorem sizeOf_fieldNodes (key : String) (value : Value) : sizeOf (fieldNodes key value) ≤ sizeOf value + 2 := by
  unfold fieldNodes
  split
  · simp
  · split
    · simp; omega
    · cases value with
      | list items =>
        have smaller := sizeOf_filter isNode items
        simp; omega
      | _ => simp

theorem sizeOf_childNodes (fields : List (String × Value)) : sizeOf (childNodes fields) ≤ sizeOf fields := by
  induction fields with
  | nil => simp [childNodes]
  | cons field rest ih =>
    obtain ⟨key, value⟩ := field
    have smaller := sizeOf_fieldNodes key value
    have whole := sizeOf_append (fieldNodes key value) (childNodes rest)
    simp [childNodes]; omega

@[simp]
theorem childNodes_below (id : Nat) (fields : List (String × Value)) : sizeOf (childNodes fields) < 1 + id + sizeOf fields := by
  have smaller := sizeOf_childNodes fields
  omega

theorem sizeOf_children (value : Value) : sizeOf value.children ≤ sizeOf value := by
  cases value with
  | record id fields =>
    rw [Value.record.sizeOf_spec]
    exact Nat.le_of_lt (childNodes_below id fields)
  | _ => simp [children, fields, childNodes]

@[simp]
theorem children_below (value : Value) (rest : List Value) : sizeOf (value.children ++ rest) < 1 + sizeOf value + sizeOf rest := by
  have smaller := sizeOf_children value
  have whole := sizeOf_append value.children rest
  omega

@[simp]
theorem reverse_children_below (value : Value) (rest : List Value) :
    sizeOf (value.children.reverse ++ rest) < 1 + sizeOf value + sizeOf rest := by
  have smaller := sizeOf_children value
  have turned := sizeOf_reverse value.children
  have whole := sizeOf_append value.children.reverse rest
  omega

def walkAll : List Value → List Value
  | [] => []
  | value :: rest => value :: walkAll (value.children ++ rest)
termination_by stack => sizeOf stack

def walk (root : Value) : List Value := walkAll [root]

def opensBody (value : Value) : Bool := value.kindIs fun kind => kind.isFunction || kind.isClass

def walkOwnAll : List Value → List Value
  | [] => []
  | value :: rest =>
    value :: if value.opensBody then walkOwnAll rest else walkOwnAll (value.children ++ rest)
termination_by stack => sizeOf stack

/-- The nodes of a tree that belong to its root: nested functions and classes are listed, what
they hold is not. -/
def walkOwn (root : Value) : List Value := root :: walkOwnAll root.children

def parentsAll : List Value → List (Nat × Value) → List (Nat × Value)
  | [], found => found
  | parent :: rest, found =>
    parentsAll (parent.children.reverse ++ rest) (parent.children.filterMap (fun child => child.id?.map (·, parent)) ++ found)
termination_by stack => sizeOf stack

/-- The parent of each node of a tree but the root, by the identity of the node. -/
def parents (root : Value) : List (Nat × Value) := parentsAll [root] []

def ownInvocations (root : Value) : List Value := root.walkOwn.filter (·.kindIs Kind.isInvocation)

end Value

end HookLint
