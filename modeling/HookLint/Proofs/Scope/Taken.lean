import HookLint.Proofs.Scope.Parts

namespace HookLint.Survey

open List Value

-- The records for which a part may open a scope or note a use.
mutual
def Part.takes : Part → List Value
  | .visit _ node => node.records
  | .assign node | .refer _ node _ | .writeUndeclared node => node.self
  | .scope _ node parts => node.self ++ takesAll parts
  | _ => []
def takesAll : List Part → List Value
  | [] => []
  | part :: rest => part.takes ++ takesAll rest
end

theorem takes_all_eq (parts : List Part) : takesAll parts = parts.flatMap Part.takes := by
  induction parts with
  | nil => rfl
  | cons part rest ih => rw [takesAll, ih, flatMap_cons]

theorem takes_all_append (first second : List Part) : takesAll (first ++ second) = takesAll first ++ takesAll second := by
  rw [takes_all_eq, takes_all_eq, takes_all_eq, flatMap_append]

theorem takes_visits (role : Role) (nodes : List Value) : takesAll (visits role nodes) = recordsOfItems nodes := by
  rw [takes_all_eq, visits, flatMap_map, records_of_items_eq]
  rfl

theorem takes_flat_map {make : Value → List Part} (each : ∀ item, (takesAll (make item)).Subperm item.records) (value : Value) :
    (takesAll (value.parts.flatMap make)).Subperm value.records := by
  refine List.Subperm.trans ?_ (parts_records_sublist value).subperm
  induction value.parts with
  | nil => exact nil_subperm
  | cons item rest ih =>
    rw [flatMap_cons, takes_all_append, recordsOfItems]
    exact (each item).append ih

section
variable {id : Nat} {fields : Fields}

theorem within {taken : List Value} (held : taken.Subperm (recordsOfFields fields)) :
    taken.Subperm (Value.record id fields).records := held.trans (sublist_cons_self _ _).subperm

theorem one_takes {taken : List Value} {key : String} (held : taken.Subperm (fields.get key).records) :
    taken.Subperm (recordsOfFields fields) := held.trans (get_records_sublist fields key).subperm

theorem two_take {first second : List Value} (key other : String) (different : key ≠ other)
    (heldFirst : first.Subperm (fields.get key).records) (heldSecond : second.Subperm (fields.get other).records) :
    (first ++ second).Subperm (recordsOfFields fields) :=
  (heldFirst.append heldSecond).trans (two_keys_subperm fields key other different)

theorem takes_visit (role : Role) (node : Value) : takesAll [.visit role node] = node.records := by
  rw [takesAll, takesAll, Part.takes, append_nil]

theorem takes_check (outcome : Except Fault Unit) (rest : List Part) : takesAll (.check outcome :: rest) = takesAll rest := rfl

theorem takes_declare (declarations : Except Fault (List Declaration)) (rest : List Part) :
    takesAll (.declare declarations :: rest) = takesAll rest := rfl

theorem visit_takes (role : Role) (node : Value) : (takesAll [.visit role node]).Subperm node.records := by rw [takes_visit]

theorem visits_take (role : Role) (value : Value) : (takesAll (visits role value.parts)).Subperm value.records := by
  rw [takes_visits]
  exact (parts_records_sublist _).subperm

theorem visit_if_takes (test : Bool) (role : Role) (node : Value) :
    (takesAll (if test then [.visit role node] else [])).Subperm node.records := by
  cases test with
  | true => exact visit_takes role node
  | false => exact nil_subperm

theorem property_takes (role : Role) (property : Value) : (takesAll (propertyParts role property)).Subperm property.records := by
  cases property with
  | record id fields =>
    refine within ?_
    rw [propertyParts]
    split
    · exact one_takes (visit_takes _ _)
    · rw [takes_all_append]
      exact two_take "key" "value" (by decide) (visit_if_takes _ _ _) (visit_takes _ _)
  | _ => exact nil_subperm

theorem declarator_takes (kind : BindingKind) (declarator : Value) :
    (takesAll (declaratorParts kind declarator)).Subperm declarator.records := by
  cases declarator with
  | record id fields =>
    refine within ?_
    have split : takesAll (declaratorParts kind (.record id fields)) =
        takesAll [.visit .binding (Fields.get fields "id")] ++ takesAll [.visit .value (Fields.get fields "init")] := by
      rw [← takes_all_append]
      rfl
    rw [split]
    exact two_take "id" "init" (by decide) (visit_takes _ _) (visit_takes _ _)
  | _ => exact nil_subperm

theorem case_takes (branch : Value) : (takesAll (caseParts branch)).Subperm branch.records := by
  cases branch with
  | record id fields =>
    refine within ?_
    exact two_take "test" "consequent" (by decide) (.refl _) (visits_take _ _)
  | _ => exact nil_subperm

theorem member_takes (body : Value) : (takesAll (memberParts body)).Subperm body.records := by
  cases body with
  | record id fields =>
    refine within ?_
    exact one_takes (visits_take _ _)
  | _ =>
    rw [memberParts]
    · split
      · exact nil_subperm
      · exact nil_subperm
    · rintro _ _ ⟨⟩

theorem function_body_takes (body : Value) : (takesAll (functionBodyParts body)).Subperm body.records := by
  cases body with
  | record id fields => exact (subperm_cons _).mpr (one_takes (visits_take _ _))
  | _ => exact nil_subperm

theorem loop_takes : (takesAll (fields.flatMap loopParts)).Subperm (recordsOfFields fields) := by
  induction fields with
  | nil => exact nil_subperm
  | cons field rest ih =>
    obtain ⟨key, value⟩ := field
    rw [flatMap_cons, takes_all_append, recordsOfFields]
    refine List.Subperm.append ?_ ih
    rw [loopParts]
    split
    · exact nil_subperm
    · split
      · exact visit_takes _ _
      · exact visit_takes _ _

theorem declares_take (patterns : List Value) (declared : Value → Except Fault (List Declaration)) :
    takesAll (patterns.map fun pattern => .declare (declared pattern)) = [] := by
  rw [takes_all_eq, flatMap_map]
  exact flatMap_eq_nil_iff.mpr fun _ _ => rfl

theorem self_takes (value : Value) : value.self.Subperm value.records := by
  cases value with
  | record id fields => exact List.Sublist.subperm (singleton_sublist.mpr mem_cons_self)
  | _ => exact nil_subperm

theorem markup_root_inside (name : Value) : (markupRoot name).records.Sublist name.records := by
  match name with
  | .record id fields =>
    rw [markupRoot]
    split
    · exact ((markup_root_inside _).trans (get_records_sublist fields "object")).cons _
    · exact .refl _
  | .null | .bool _ | .int _ | .float _ | .str _ | .list _ =>
    rw [markupRoot]
    rintro _ _ ⟨⟩
termination_by sizeOf name
decreasing_by exact sizeOf_get_record ..

theorem refer_takes (happens : Except Fault Bool) (identifier : Value) (access : Access) :
    (takesAll [.refer happens identifier access]).Subperm identifier.records := by
  rw [takesAll, takesAll, append_nil]
  exact self_takes identifier

theorem element_takes (name : Value) : (takesAll (elementParts name)).Subperm name.records := by
  rw [elementParts]
  split
  · exact refer_takes _ _ _
  · split
    · exact (refer_takes _ _ _).trans (markup_root_inside name).subperm
    · exact nil_subperm

theorem export_takes (specifier : Value) : (takesAll (exportParts specifier)).Subperm specifier.records := by
  cases specifier with
  | record id fields =>
    exact ((refer_takes _ _ _).trans (get_records_sublist fields "local").subperm).trans (sublist_cons_self _ _).subperm
  | _ => exact nil_subperm

theorem scoped_takes {kind : ScopeKind} {parts : List Part} (inside : (takesAll parts).Subperm (recordsOfFields fields)) :
    (takesAll [.scope kind (.record id fields) parts]).Subperm (Value.record id fields).records := by
  rw [takesAll, takesAll, Part.takes, append_nil]
  exact (subperm_cons _).mpr inside

theorem scoped_later_takes {kind : ScopeKind} {role : Role} {node : Value} {parts : List Part}
    (inside : (node.records ++ takesAll parts).Subperm (recordsOfFields fields)) :
    (takesAll [.visit role node, .scope kind (.record id fields) parts]).Subperm (Value.record id fields).records := by
  rw [takesAll, takesAll, takesAll, Part.takes, Part.takes, append_nil]
  exact perm_middle.subperm.trans ((subperm_cons _).mpr inside)

theorem refer_or_visit_takes (test : Bool) (node : Value) (access : Access) (role : Role) :
    (Part.takes (if test then .refer (.ok true) node access else .visit role node)).Subperm node.records := by
  cases test with
  | true => exact self_takes node
  | false => exact .refl _

-- A visit takes the record that is visited and what stands in different places of it.
theorem value_takes : (takesAll (valueParts id fields)).Subperm (Value.record id fields).records := by
  rw [valueParts]
  cases Form.of (Value.record id fields).kind with
  | name | markupName => exact refer_takes _ _ _
  | silent | failing fault => exact nil_subperm
  | opening =>
    rw [formParts, takes_all_append]
    exact within (two_take "name" "attributes" (by decide) (element_takes _) (visits_take _ _))
  | markupValue | labeled => exact within (one_takes (visit_takes _ _))
  | member => exact within (two_take "object" "property" (by decide) (.refl _) (visit_if_takes _ _ _))
  | property =>
    rw [formParts, takes_all_append]
    exact within (two_take "key" "value" (by decide) (visit_if_takes _ _ _) (visit_takes _ _))
  | exported =>
    rw [formParts]
    split
    · exact within (one_takes (visit_takes _ _))
    · split
      · exact nil_subperm
      · exact within (one_takes (takes_flat_map export_takes (fields.get "specifiers")))
  | declaration => exact within (one_takes (takes_flat_map (declarator_takes _) (fields.get "declarations")))
  | assignment =>
    rw [formParts, takes_check, takesAll, takes_visit]
    exact within (two_take "left" "right" (by decide) (refer_or_visit_takes _ _ _ _) (.refl _))
  | update =>
    rw [formParts, takesAll, takesAll, append_nil]
    exact within (one_takes (refer_or_visit_takes _ _ _ _))
  | function =>
    refine scoped_takes ?_
    rw [takes_all_append, takes_all_append, takes_declare, takes_check, declares_take, nil_append]
    refine two_take "params" "body" (by decide) (visits_take _ _) ?_
    split
    · exact function_body_takes _
    · exact visit_takes _ _
  | classLike => exact scoped_later_takes (two_take "superClass" "body" (by decide) (.refl _) (member_takes _))
  | block => exact scoped_takes (one_takes (visits_take _ _))
  | loop =>
    rw [formParts]
    generalize (if (Value.record id fields).isA .forStatement = true then "init" else "left") = key
    split
    · exact scoped_takes loop_takes
    · exact within loop_takes
  | branches =>
    exact scoped_later_takes (two_take "discriminant" "cases" (by decide) (.refl _) (takes_flat_map case_takes _))
  | handler =>
    refine scoped_takes ?_
    rw [takes_declare, takesAll, takes_visit]
    exact two_take "param" "body" (by decide) (.refl _) (.refl _)
  | plain =>
    rw [formParts, takes_visits]
    exact within (children_records_sublist fields).subperm

theorem pattern_takes (role : Role) : (takesAll (patternParts role id fields)).Subperm (Value.record id fields).records := by
  rw [patternParts]
  split
  · split
    · exact self_takes (.record id fields)
    · exact nil_subperm
  · rw [takesAll, takes_visit]
    refine within ?_
    exact two_take "left" "right" (by decide) (.refl _) (.refl _)
  · exact within (one_takes (takes_flat_map (property_takes role) (fields.get "properties")))
  · exact within (one_takes (visits_take _ _))
  · exact within (one_takes (visit_takes _ _))

theorem outline_takes (role : Role) : (takesAll (outline role (.record id fields))).Subperm (Value.record id fields).records := by
  rw [outline]
  split
  · exact pattern_takes role
  · split
    · exact nil_subperm
    · exact value_takes

theorem outline_apart (role : Role) (distinct : (Value.record id fields).Distinct) :
    ((takesAll (outline role (.record id fields))).map identity).Nodup := by
  obtain ⟨taken, reordered, included⟩ : (takesAll (outline role (.record id fields))).Subperm _ := outline_takes role
  exact (reordered.map identity).nodup_iff.mp ((included.map identity).nodup distinct.apart)

end

end HookLint.Survey
