import AssertionLint.CSharp.Document
import AssertionLint.Proofs.Position.Node
import AssertionLint.Proofs.Syntax.Outline
import Mathlib.Tactic.Simps.Basic

/-!
# The outline behind a text

Declarations and findings behind a text, and the walk that finds outermost expressions, bodies and
locals: it takes the same steps behind the text (`Node.outline_behind`).
-/

namespace AssertionLint

variable (front : String)

/-- The same parameter once a text stands in front of the source. -/
@[simps]
def ParameterDecl.behind (parameter : ParameterDecl) : ParameterDecl where
  name := parameter.name
  type := parameter.type.map (TypeExpr.behind front)
  isParams := parameter.isParams
  isThis := parameter.isThis
  isOptional := parameter.isOptional

/-- The same method once a text stands in front of the source. -/
@[simps]
def MethodDecl.behind (method : MethodDecl) : MethodDecl where
  name := method.name
  kind := method.kind
  typeParameters := method.typeParameters
  parameters := method.parameters.map (ParameterDecl.behind front)
  returnType := method.returnType.behind front
  isStatic := method.isStatic

/-- The same property once a text stands in front of the source. -/
@[simps]
def PropertyDecl.behind (property : PropertyDecl) : PropertyDecl where
  name := property.name
  type := property.type.behind front
  isStatic := property.isStatic

/-- The same field once a text stands in front of the source. -/
@[simps]
def FieldDecl.behind (field : FieldDecl) : FieldDecl where
  name := field.name
  type := field.type.behind front
  isStatic := field.isStatic
  isConst := field.isConst

/-- The same conversion once a text stands in front of the source. -/
@[simps]
def ConversionDecl.behind (conversion : ConversionDecl) : ConversionDecl where
  isImplicit := conversion.isImplicit
  source := conversion.source.behind front
  target := conversion.target.behind front

/-- The same type once a text stands in front of the source. -/
@[simps]
def TypeDecl.behind (type : TypeDecl) : TypeDecl where
  name := type.name
  enclosing := type.enclosing
  outer := type.outer
  kind := type.kind
  isStatic := type.isStatic
  isRefLike := type.isRefLike
  typeParameters := type.typeParameters
  bases := type.bases.map (TypeExpr.behind front)
  methods := type.methods.map (MethodDecl.behind front)
  properties := type.properties.map (PropertyDecl.behind front)
  fields := type.fields.map (FieldDecl.behind front)
  conversions := type.conversions.map (ConversionDecl.behind front)
  span := type.span.behind front

/-- The same body once a text stands in front of the source. -/
@[simps]
def BodyScope.behind (body : BodyScope) : BodyScope where
  span := body.span.behind front
  parameters := body.parameters.map (ParameterDecl.behind front)
  typeParameters := body.typeParameters
  isStatic := body.isStatic

/-- The same source of a value once a text stands in front of the source. -/
def LocalValue.behind : LocalValue → LocalValue
  | none => none
  | initializer value => initializer (value.behind front)
  | elementOf collection => elementOf (collection.behind front)

/-- The same local once a text stands in front of the source. -/
@[simps]
def LocalDecl.behind (found : LocalDecl) : LocalDecl where
  name := found.name
  type := found.type.map (TypeExpr.behind front)
  value := found.value.behind front
  scope := found.scope.behind front
  visibleFrom := Text.behind front found.visibleFrom

/-- The same declarations once a text stands in front of the source. -/
@[simps]
def Declarations.behind (declarations : Declarations) : Declarations where
  types := declarations.types.map (TypeDecl.behind front)
  bodies := declarations.bodies.map (BodyScope.behind front)
  locals := declarations.locals.map (LocalDecl.behind front)
  usings := declarations.usings
  namespaces := declarations.namespaces

/-- The same outermost expression once a text stands in front of the source. -/
@[simps]
def RootExpression.behind (root : RootExpression) : RootExpression where
  expression := root.expression.behind front
  inMethodBody := root.inMethodBody
  hasErrors := root.hasErrors

/-- The same finding once a text stands in front of the source. -/
def OutlineItem.behind : OutlineItem → OutlineItem
  | root found => root (found.behind front)
  | body scope => body (scope.behind front)
  | declared found => declared (found.behind front)

/-- The same surroundings once a text stands in front of the source. -/
@[simps]
def Surroundings.behind (around : Surroundings) : Surroundings where
  inMethodBody := around.inMethodBody
  hasErrors := around.hasErrors
  scope := around.scope.behind front

/-- The same region once a text stands in front of the source. -/
def Region.behind : Region → Region
  | declaration owner around => declaration owner (around.behind front)
  | accessors parameters isStatic =>
    accessors (parameters.map (ParameterDecl.behind front)) isStatic
  | function parameters typeParameters isStatic =>
    function (parameters.map (ParameterDecl.behind front)) typeParameters isStatic
  | statement around => statement (around.behind front)
  | root around => root (around.behind front)
  | operand around => operand (around.behind front)
  | inside around => inside (around.behind front)

/-- The same step once a text stands in front of the source. -/
def OutlineStep.behind : OutlineStep → OutlineStep
  | found item => found (item.behind front)
  | visit region node => visit (region.behind front) (node.behind front)

namespace Node

variable (source : String) (node : Node)

theorem wordsBefore_behind (stop : Node) :
    (node.behind front).wordsBefore (stop.behind front) = node.wordsBefore stop := by
  simp [wordsBefore, List.takeWhile_map, Function.comp_def]

@[simp]
theorem declaredName?_behind :
    (node.behind front).declaredName? = node.declaredName?.map (behind front) :=
  child?_behind front node .name

@[simp]
theorem leadingWords_behind : (node.behind front).leadingWords = node.leadingWords := by
  simp only [leadingWords, declaredName?_behind]
  cases node.declaredName? with
  | none => rfl
  | some name => exact wordsBefore_behind front node name

@[simp]
theorem typeParameterNames_behind :
    (node.behind front).typeParameterNames = node.typeParameterNames := by
  simp only [typeParameterNames, childOfForm?_behind]
  cases node.childOfForm? .typeParameterList with
  | none => rfl
  | some list => simp [List.filterMap_map, Function.comp_def]

theorem toParameter?_behind :
    (node.behind front).toParameter? (front ++ source) =
      (node.toParameter? source).map (ParameterDecl.behind front) := by
  simp only [toParameter?, child?_behind]
  cases node.child? .name with
  | none => rfl
  | some name =>
    cases node.child? .type <;>
      simp [List.filterMap_map, Function.comp_def, ParameterDecl.behind]

@[simp]
theorem toParameters_behind :
    (node.behind front).toParameters (front ++ source) =
      (node.toParameters source).map (ParameterDecl.behind front) := by
  simp [toParameters, List.filter_map, List.filterMap_map, List.map_filterMap, Function.comp_def,
    toParameter?_behind]

@[simp]
theorem declaredParameters_behind :
    (node.behind front).declaredParameters (front ++ source) =
      (node.declaredParameters source).map (ParameterDecl.behind front) := by
  simp only [declaredParameters, child?_behind]
  cases node.child? .parameters <;> simp

@[simp]
theorem lambdaParameters_behind :
    (node.behind front).lambdaParameters (front ++ source) =
      (node.lambdaParameters source).map (ParameterDecl.behind front) := by
  simp only [lambdaParameters, child?_behind]
  cases node.child? .parameters with
  | none => rfl
  | some list =>
    simp only [Option.map_some, form_behind]
    split <;> simp [ParameterDecl.behind]

@[simp]
theorem declaratorName?_behind :
    (node.behind front).declaratorName? = node.declaratorName? := by
  simp only [declaratorName?, child?_behind, children_behind, List.find?_map, Function.comp_def,
    form_behind]
  cases node.child? .name <;> simp [Function.comp_def]

@[simp]
theorem writtenType?_behind :
    (node.behind front).writtenType? (front ++ source) =
      (node.writtenType? source).map (TypeExpr.behind front) := by
  simp only [writtenType?, child?_behind]
  cases node.child? .type with
  | none => rfl
  | some type =>
    simp only [Option.map_some, Option.bind_some, toType_behind]
    cases type.toType source <;> rfl

/-- The value of a declarator without the proof that it is a part. -/
theorem map_val_declaredValue? :
    node.declaredValue?.map (·.val) =
      ((node.children.dropWhile fun child => !child.isToken "=").drop 1).find?
        (·.form.isNamed) := by
  have dropped : (node.children.attach.dropWhile fun child => !child.1.isToken "=").map (·.1) =
      node.children.dropWhile fun child => !child.isToken "=" := by
    rw [← Function.comp_def (fun child => !isToken child "="), ← List.dropWhile_map,
      List.attach_map_subtype_val]
  rw [← dropped, ← List.map_drop, List.find?_map]
  rfl

theorem map_val_declaredValue?_behind :
    (node.behind front).declaredValue?.map (·.val) =
      node.declaredValue?.map fun value => value.val.behind front := by
  have inner := congrArg (Option.map (behind front)) (map_val_declaredValue? node)
  rw [Option.map_map] at inner
  refine Eq.trans ?_ inner.symm
  rw [map_val_declaredValue?, children_behind, List.dropWhile_map, ← List.map_drop, List.find?_map]
  simp [Function.comp_def]

theorem rootItems_behind (around : Surroundings) :
    (node.behind front).rootItems (front ++ source) (around.behind front) =
      (node.rootItems source around).map (OutlineItem.behind front) := by
  simp only [rootItems, toExpr_behind, hasError_behind, hasMalformedArgument_behind]
  cases node.toExpr source <;> rfl

theorem localItems_behind (around : Surroundings) (type : Option TypeExpr) :
    (node.behind front).localItems (front ++ source) (around.behind front)
        (type.map (TypeExpr.behind front)) =
      (node.localItems source around type).map (OutlineItem.behind front) := by
  have value := map_val_declaredValue?_behind front node
  simp only [localItems, declaratorName?_behind]
  cases node.declaratorName? with
  | none => rfl
  | some name =>
    cases one : (node.behind front).declaredValue? <;> cases two : node.declaredValue?
    all_goals simp [one, two] at value
    · simp [OutlineItem.behind, LocalDecl.behind, LocalValue.behind]
    · simp [OutlineItem.behind, LocalDecl.behind, LocalValue.behind, value]

theorem loopItems_behind :
    (node.behind front).loopItems (front ++ source) =
      (node.loopItems source).map (OutlineItem.behind front) := by
  simp only [loopItems, child?_behind]
  cases node.child? .left with
  | none => rfl
  | some left =>
    simp only [Option.map_some, form_behind]
    split
    · cases node.child? .right <;>
        simp [OutlineItem.behind, LocalDecl.behind, LocalValue.behind]
    · rfl

theorem surroundParts_behind (around : Surroundings) :
    (node.behind front).surroundParts (around.behind front) =
      (node.surroundParts around).behind front := by
  simp only [surroundParts, Surroundings.behind, form_behind, hasError_behind, span_behind,
    apply_ite (Span.behind front)]

theorem regionInside_behind (around : Surroundings) :
    (node.behind front).regionInside (around.behind front) =
      (node.regionInside around).behind front := by
  simp only [regionInside, form_behind]
  split
  · rfl
  · split <;> rfl

theorem lambdaSteps_behind (around : Surroundings) :
    (node.behind front).lambdaSteps (around.behind front) =
      (node.lambdaSteps around).map (OutlineStep.behind front) := by
  simp only [lambdaSteps, role_behind, form_behind]
  split
  · split <;> simp [OutlineStep.behind, Region.behind, Surroundings.behind]
  · rfl

theorem operandSteps_behind (around : Surroundings) :
    (node.behind front).operandSteps (front ++ source) (around.behind front) =
      (node.operandSteps source around).map (OutlineStep.behind front) := by
  simp only [operandSteps, view_behind]
  cases node.view with
  | objectCreation type list =>
    simp only [ExprView.behind, children_behind, List.map_append, List.flatMap_map,
      List.map_flatMap, form_behind, apply_ite (List.map (OutlineStep.behind front))]
    cases list <;> simp [OutlineStep.behind, Region.behind, ArgumentView.behind]
  | lambda body =>
    simp only [ExprView.behind, children_behind, List.map_cons, List.flatMap_map, List.map_flatMap,
      lambdaSteps_behind]
    simp [OutlineStep.behind, OutlineItem.behind, BodyScope.behind]
  | _ =>
    simp [ExprView.behind, ExprView.parts, OutlineStep.behind, Region.behind, ArgumentView.behind]

theorem valueSteps_behind (around : Surroundings) :
    (node.behind front).valueSteps (around.behind front) =
      (node.valueSteps around).map (OutlineStep.behind front) := by
  have value := map_val_declaredValue?_behind front node
  unfold valueSteps
  cases one : (node.behind front).declaredValue? <;> cases two : node.declaredValue?
  all_goals simp [one, two] at value
  · rfl
  · simp [OutlineStep.behind, Region.behind, value]

theorem statementSteps_behind (around : Surroundings) :
    (node.behind front).statementSteps (front ++ source) (around.behind front) =
      (node.statementSteps source around).map (OutlineStep.behind front) := by
  simp only [statementSteps, form_behind, surroundParts_behind, children_behind]
  split
  · simp only [List.flatMap_map, List.map_flatMap, form_behind, writtenType?_behind,
      localItems_behind, valueSteps_behind, apply_ite (List.map (OutlineStep.behind front)),
      List.map_append, List.map_map, List.map_nil]
    rfl
  · simp only [List.flatMap_map, List.map_flatMap, role_behind, loopItems_behind,
      apply_ite (List.map (OutlineStep.behind front)), List.map_append, List.map_map, List.map_nil,
      span_behind]
    rfl
  · simp [OutlineStep.behind, Region.behind]
  · rfl
  · simp only [apply_ite (List.map (OutlineStep.behind front)), List.map_map, List.map_nil]
    rfl

theorem bodySteps_behind (scope : BodyScope) :
    (node.behind front).bodySteps (scope.behind front) =
      (node.bodySteps scope).map (OutlineStep.behind front) := by
  simp [bodySteps, OutlineStep.behind, OutlineItem.behind, Region.behind, Surroundings.behind]

theorem accessorSteps_behind (parameters : List ParameterDecl) (isStatic : Bool) :
    (node.behind front).accessorSteps (parameters.map (ParameterDecl.behind front)) isStatic =
      (node.accessorSteps parameters isStatic).map (OutlineStep.behind front) := by
  simp only [accessorSteps, form_behind]
  split
  · rfl
  · rfl
  · rw [← bodySteps_behind, span_behind]
    rfl
  · rfl

theorem declarationSteps_behind (owner : Option Bool) (span : Span) :
    (node.behind front).declarationSteps (front ++ source) owner (span.behind front) =
      (node.declarationSteps source owner span).map (OutlineStep.behind front) := by
  simp only [declarationSteps, form_behind, children_behind, hasError_behind, leadingWords_behind,
    declaredParameters_behind, typeParameterNames_behind]
  split
  case h_11 static _ =>
    have value : [(⟨"value", ((node.behind front).child? .type).map (·.toType (front ++ source)),
        false, false, false⟩ : ParameterDecl)] =
        [(⟨"value", (node.child? .type).map (·.toType source), false, false, false⟩ :
          ParameterDecl)].map (ParameterDecl.behind front) := by
      simp [ParameterDecl.behind, Function.comp_def]
    rw [value]
    simp only [List.flatMap_map, List.map_flatMap, accessorSteps_behind, List.map_append,
      role_behind, form_behind, span_behind, apply_ite (List.map (OutlineStep.behind front))]
    rfl
  case h_12 =>
    simp only [List.flatMap_map, List.map_flatMap, form_behind, children_behind, span_behind,
      ← valueSteps_behind, apply_ite (List.map (OutlineStep.behind front))]
    rfl
  case h_1 | h_4 =>
    rw [List.map_map, List.map_map]
    rfl
  case h_13 =>
    rw [List.map_map, List.map_map, span_behind]
    rfl
  case h_2 | h_3 =>
    simp only [List.flatMap_map, List.map_flatMap, role_behind, span_behind,
      apply_ite (List.map (OutlineStep.behind front))]
    rfl
  all_goals rfl

theorem outlineSteps_behind (region : Region) :
    (node.behind front).outlineSteps (front ++ source) (region.behind front) =
      (node.outlineSteps source region).map (OutlineStep.behind front) := by
  cases region with
  | inside around =>
    simp only [Region.behind, outlineSteps, children_behind, List.map_map]
    apply List.map_congr_left
    intro child _
    rw [Function.comp_apply, Function.comp_apply, regionInside_behind]
    rfl
  | root around =>
    simp only [Region.behind, outlineSteps, rootItems_behind, List.map_map, List.map_append]
    rfl
  | operand around => exact operandSteps_behind front source node around
  | statement around =>
    simp only [Region.behind, outlineSteps, form_behind, statementSteps_behind,
      apply_ite (List.map (OutlineStep.behind front))]
    rfl
  | function parameters typeParameters isStatic =>
    simp only [Region.behind, outlineSteps, children_behind, List.flatMap_map, List.map_flatMap]
    apply List.flatMap_congr
    intro child _
    simp only [role_behind, form_behind, apply_ite (List.map (OutlineStep.behind front)),
      ← bodySteps_behind]
    rw [span_behind]
    rfl
  | accessors parameters isStatic =>
    simp only [Region.behind, outlineSteps, children_behind, List.flatMap_map, List.map_flatMap,
      accessorSteps_behind]
  | declaration owner span => exact declarationSteps_behind front source node owner span

/-- A document behind a text has the same outline behind the text. -/
theorem outline_behind (region : Region) :
    (node.behind front).outline (front ++ source) (region.behind front) =
      (node.outline source region).map (OutlineItem.behind front) := by
  induction region, node using outline_induction source with
  | step region node ih =>
    rw [outline_eq_flatMap, outline_eq_flatMap, outlineSteps_behind, List.flatMap_map,
      List.map_flatMap]
    apply List.flatMap_congr
    intro step isStep
    cases step with
    | found item => rfl
    | visit inner part => exact ih inner part isStep

end Node

end AssertionLint
