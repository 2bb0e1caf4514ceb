import HookLint.Flow.Build

namespace HookLint.Flow

-- Where a call is recorded: whether in the body of a loop, and whether in a region that is
-- not modelled.
structure Mark where
  inLoop : Bool
  blurred : Bool

abbrev Marks := List (Mark × Value)

def Region.marks (inLoop : Bool) (area : Region) : Marks := area.calls.map (⟨inLoop, true⟩, ·)

-- The calls of a form in the order in which they are recorded.
mutual
def Expr.marks (inLoop : Bool) : Expr → Marks
  | .leaf | .broken _ => []
  | .sequence parts => marksOfAll inLoop parts
  | .call node _ callee arguments => callee.marks inLoop ++ (marksOfAll inLoop arguments ++ [(⟨inLoop, false⟩, node)])
  | .member _ object key => object.marks inLoop ++ marksOfIf inLoop key
  | .chain inner => inner.marks inLoop
  | .logical _ left right => left.marks inLoop ++ right.marks inLoop
  | .conditional test consequent alternate => test.marks inLoop ++ (consequent.marks inLoop ++ alternate.marks inLoop)
  | .assign target value => target.marksBefore inLoop ++ (value.marks inLoop ++ target.marksAfter inLoop)
  | .assignIf _ target value => target.marksBefore inLoop ++ value.marks inLoop
  | .object properties => marksOfProperties inLoop properties
  | .destructure pattern => pattern.marks inLoop
  | .region area => area.marks inLoop
def marksOfAll (inLoop : Bool) : List Expr → Marks
  | [] => []
  | expr :: rest => expr.marks inLoop ++ marksOfAll inLoop rest
def marksOfIf (inLoop : Bool) : Option Expr → Marks
  | none => []
  | some expr => expr.marks inLoop
def marksOfProperties (inLoop : Bool) : List Property → Marks
  | [] => []
  | property :: rest => property.marks inLoop ++ marksOfProperties inLoop rest
def Property.marks (inLoop : Bool) : Property → Marks
  | .spread argument => argument.marks inLoop
  | .entry key value => marksOfIf inLoop key ++ value.marks inLoop
def Target.marksBefore (inLoop : Bool) : Target → Marks
  | .plain | .pattern _ => []
  | .member object key => object.marks inLoop ++ marksOfIf inLoop key
def Target.marksAfter (inLoop : Bool) : Target → Marks
  | .plain | .member _ _ => []
  | .pattern pattern => pattern.marks inLoop
def Pattern.marks (inLoop : Bool) : Pattern → Marks
  | .plain | .broken _ => []
  | .withDefault target value => target.marks inLoop ++ value.marks inLoop
  | .object properties => marksOfPatternProperties inLoop properties
  | .array elements => marksOfPatterns inLoop elements
  | .rest target => target.marks inLoop
  | .member _ object key => object.marks inLoop ++ marksOfIf inLoop key
def marksOfPatterns (inLoop : Bool) : List Pattern → Marks
  | [] => []
  | pattern :: rest => pattern.marks inLoop ++ marksOfPatterns inLoop rest
def marksOfPatternProperties (inLoop : Bool) : List PatternProperty → Marks
  | [] => []
  | property :: rest => property.marks inLoop ++ marksOfPatternProperties inLoop rest
def PatternProperty.marks (inLoop : Bool) : PatternProperty → Marks
  | .rest target => target.marks inLoop
  | .entry key target => marksOfIf inLoop key ++ target.marks inLoop
end

def Variables.marks (inLoop : Bool) (declared : Variables) : Marks :=
  declared.declarators.flatMap fun declarator => declarator.value.marks inLoop ++ declarator.target.marks inLoop

def Start.marks (inLoop : Bool) : Start → Marks
  | .nothing => []
  | .declare declared => declared.marks inLoop
  | .expression value => value.marks inLoop

def marksOfTests (inLoop : Bool) (cases : List Case) : Marks := cases.flatMap fun branch => marksOfIf inLoop branch.test

mutual
def Stmt.marks (inLoop : Bool) : Stmt → Marks
  | .note _ | .broken _ => []
  | .block body => marksOfStmts inLoop body
  | .evaluate _ value | .bare value | .returnValue _ value | .throwValue _ value => value.marks inLoop
  | .declare declared => declared.marks inLoop
  | .ifElse _ test consequent alternate => test.marks inLoop ++ (marksOfOptional inLoop consequent ++ marksOfOptional inLoop alternate)
  | .labeled _ body => body.marks inLoop
  | .whileLoop _ test body => test.marks inLoop ++ marksOfOptional true body
  | .doWhileLoop _ body test => marksOfOptional true body ++ test.marks inLoop
  | .forLoop _ start test update body => start.marks inLoop ++ (marksOfIf inLoop test ++ (marksOfOptional true body ++ update.marks inLoop))
  | .forEach _ source targets body => source.marks inLoop ++ (marksOfPatterns true targets ++ marksOfOptional true body)
  | .breakTo area _ | .continueTo area _ | .region area => area.marks inLoop
  | .switch _ discriminant cases => discriminant.marks inLoop ++ (marksOfTests inLoop cases ++ marksOfCases inLoop cases)
  | .tryCatch body handler finalizer => marksOfStmts inLoop body ++ (marksOfHandler inLoop handler ++ marksOfOptional inLoop finalizer)
  | .withObject object body => object.marks inLoop ++ marksOfOptional inLoop body
def marksOfStmts (inLoop : Bool) : List Stmt → Marks
  | [] => []
  | stmt :: rest => stmt.marks inLoop ++ marksOfStmts inLoop rest
def marksOfOptional (inLoop : Bool) : Option Stmt → Marks
  | none => []
  | some stmt => stmt.marks inLoop
def marksOfCases (inLoop : Bool) : List Case → Marks
  | [] => []
  | branch :: rest => branch.marks inLoop ++ marksOfCases inLoop rest
def Case.marks (inLoop : Bool) : Case → Marks
  | .mk _ body => marksOfStmts inLoop body
def marksOfHandler (inLoop : Bool) : Option Handler → Marks
  | none => []
  | some handler => handler.marks inLoop
def Handler.marks (inLoop : Bool) : Handler → Marks
  | .mk param body => param.marks inLoop ++ marksOfOptional inLoop body
end

def Body.marks (body : Body) : Marks := marksOfPatterns false body.params ++ marksOfStmts false body.statements

-- Some of the marked calls, among them all that lie outside of regions that are not modelled.
structure Included (fewer more : Marks) : Prop where
  sublist : fewer.Sublist more
  exact : ∀ entry ∈ more, entry.1.blurred = false → entry ∈ fewer

section
variable {fewer more : Marks}

theorem included_refl (marks : Marks) : Included marks marks := ⟨List.Sublist.refl _, fun _ member _ => member⟩

theorem included_of_eq (same : fewer = more) : Included fewer more := same ▸ included_refl fewer

theorem Included.trans {most : Marks} (early : Included fewer more) (late : Included more most) : Included fewer most :=
  ⟨early.sublist.trans late.sublist, fun entry member outside => early.exact entry (late.exact entry member outside) outside⟩

theorem Included.append {few others : Marks} (left : Included fewer more) (right : Included few others) :
    Included (fewer ++ few) (more ++ others) := by
  refine ⟨left.sublist.append right.sublist, fun entry member outside => List.mem_append.mpr ?_⟩
  exact (List.mem_append.mp member).imp (left.exact entry · outside) (right.exact entry · outside)

end

end HookLint.Flow
