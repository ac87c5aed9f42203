import ResourceLint.Assembly
import ResourceLint.Catalog
import ResourceLint.Report

/-!
Decoding undoes encoding. The fields of a record are found again by their names, and a field that
was left out stands for the very value for which it was left out. So every assembly comes back as it
was, however deeply its types and dependencies are nested, and so do schema entries and reports.
-/

namespace ResourceLint

open Data

theorem Severity.decode_encode (s : Severity) : decode Format.json s.encode = some s := by
  cases s <;> rfl

mutual

@[simp] theorem TypeRef.decode_encode : ∀ t : TypeRef, decode t.encode = some t
  | .primitive name => by simp [encode, decode]
  | .named fqn => by simp [encode, decode]
  | .array element => by simp [encode, decode, decode_encode element]
  | .map element => by simp [encode, decode, decode_encode element]
  | .union types => by simp [encode, decode, decodeAll_encodeAll types]

theorem TypeRef.decodeAll_encodeAll : ∀ ts : List TypeRef, decodeAll (encodeAll ts) = some ts
  | [] => rfl
  | t :: ts => by simp [encodeAll, decodeAll, decode_encode t, decodeAll_encodeAll ts]

end

@[simp] theorem TypeRef.encode_ne_null (t : TypeRef) : t.encode ≠ .null := by
  cases t <;> simp [encode]

/-- A map of tags that is left out is the empty one. -/
@[simp] theorem Docs.decode_encode (d : Docs) : decode d.encode = some d := by
  obtain ⟨summary, tags⟩ := d
  have htags := Dict.ofList_entries tags
  have hmap := Value.entriesOf?_map Value.text?_text tags.entries
  cases hempty : tags.isEmpty with
  | true =>
    have hnil : tags.entries = [] := by simpa [Dict.isEmpty] using hempty
    rw [hnil] at htags
    cases summary <;> simp [encode, decode, hempty, htags]
  | false => cases summary <;> simp [encode, decode, hempty, hmap, htags]

theorem PropertyDecl.decode_encode (p : PropertyDecl) : decode p.encode = some p := by
  obtain ⟨name, type, immutable, optional, static, isProtected, overrides, docs⟩ := p
  cases overrides <;> simp [encode, decode]

theorem ParameterDecl.decode_encode (p : ParameterDecl) : decode p.encode = some p := by
  simp [encode, decode]

theorem MethodDecl.decode_encode (m : MethodDecl) : decode m.encode = some m := by
  obtain ⟨name, returns, parameters, static, isProtected, docs⟩ := m
  have hparameters := Value.listOf?_map ParameterDecl.decode_encode parameters
  cases returns <;> simp [encode, decode, hparameters]

theorem ClassDecl.decode_encode (c : ClassDecl) : decode c.encode = some c := by
  obtain ⟨fqn, base, interfaces, isAbstract, properties, methods, docs⟩ := c
  have hinterfaces := Value.listOf?_map Value.text?_text interfaces
  have hproperties := Value.listOf?_map PropertyDecl.decode_encode properties
  have hmethods := Value.listOf?_map MethodDecl.decode_encode methods
  cases base <;>
    simp [encode, decode, hinterfaces, hproperties, hmethods]

theorem InterfaceDecl.decode_encode (i : InterfaceDecl) : decode i.encode = some i := by
  have hinterfaces := Value.listOf?_map Value.text?_text i.interfaces
  have hproperties := Value.listOf?_map PropertyDecl.decode_encode i.properties
  have hmethods := Value.listOf?_map MethodDecl.decode_encode i.methods
  simp [encode, decode, hinterfaces, hproperties, hmethods]

namespace Assembly

/-- How an assembly with a list of dependencies is decoded. -/
theorem decode_of_fields {v : Value} {fs : Fields} {items : List Value}
    (hfields : Format.json.fields? fieldNames v = some fs)
    (hitems : fs.lookup "dependencies" = some (.list items)) :
    decode v = (do
      let name ← fs.required "name" Value.text?
      let classes ← fs.defaulted "classes" [] (Value.listOf? ClassDecl.decode)
      let interfaces ← fs.defaulted "interfaces" [] (Value.listOf? InterfaceDecl.decode)
      let dependencies ← items.mapM decode
      return ⟨name, classes, interfaces, dependencies⟩) := by
  have hattach : (items.attach.mapM fun item => decode item.val) = items.mapM decode := by
    have h := List.mapM_map (f := Subtype.val) (g := decode) (l := items.attach)
    rw [List.attach_map_subtype_val] at h
    exact h.symm
  rw [decode]
  split
  · rename_i hnone
    cases hfields.symm.trans hnone
  · rename_i fs' hfs
    cases hfields.symm.trans hfs
    congr 1; funext name
    congr 1; funext classes
    congr 1; funext interfaces
    dsimp only
    split
    · rename_i hnone
      cases hitems.symm.trans hnone
    · rename_i items' hlist
      cases hitems.symm.trans hlist
      rw [hattach]
    · rename_i other hother hlist
      cases hitems.symm.trans hlist
      exact absurd rfl (hother items)

mutual

theorem decode_encode : ∀ a : Assembly, decode a.encode = some a
  | ⟨name, classes, interfaces, dependencies⟩ => by
    have hclasses := Value.listOf?_map ClassDecl.decode_encode classes
    have hinterfaces := Value.listOf?_map InterfaceDecl.decode_encode interfaces
    have hdependencies := mapM_decode_encodeAll dependencies
    rw [encode, decode_of_fields (Format.fields?_record_of_nodup _ _ (by simp)) rfl]
    simp [hclasses, hinterfaces, hdependencies]

theorem mapM_decode_encodeAll : ∀ as : List Assembly, (encodeAll as).mapM decode = some as
  | [] => rfl
  | a :: as => by
    rw [encodeAll, List.mapM_cons, decode_encode a, mapM_decode_encodeAll as]
    rfl

end

end Assembly

theorem SchemaEntry.decode_encode (s : SchemaEntry) : decode s.encode = some s := by
  have hattributes := Value.listOf?_map Value.text?_text s.attributes
  simp [encode, decode, hattributes]

theorem Violation.decode_encode (v : Violation) : decode v.encode = some v := by
  obtain ⟨code, severity, resource, scope, message, extra⟩ := v
  have hseverity := severity.decode_encode
  cases extra <;> simp [encode, decode, hseverity]

/-- A report comes back unless its count is too large to be read. -/
theorem Report.decode_encode (r : Report) :
    decode r.encode = if r.resourcesChecked < Nat.pow 2 64 then some r else none := by
  have hviolations := Value.listOf?_map Violation.decode_encode r.violations
  have hcount := Value.count?_natural r.resourcesChecked
  by_cases h : r.resourcesChecked < Nat.pow 2 64
  · rw [if_pos h] at hcount ⊢
    simp [encode, decode, hviolations, hcount]
  · rw [if_neg h] at hcount ⊢
    simp [encode, decode, hviolations, hcount]

/-- Nothing is lost in writing: every assembly and every schema entry is read back as it was, and so
is every report whose count can be read at all. -/
theorem decode_encode_lossless :
    (∀ a : Assembly, Assembly.decode a.encode = some a) ∧
      (∀ s : SchemaEntry, SchemaEntry.decode s.encode = some s) ∧
      ∀ r : Report, Report.decode r.encode = some r ↔ r.resourcesChecked < Nat.pow 2 64 := by
  refine ⟨Assembly.decode_encode, SchemaEntry.decode_encode, fun r => ?_⟩
  rw [Report.decode_encode]
  split
  · rename_i h
    exact iff_of_true rfl h
  · rename_i h
    exact iff_of_false nofun h

end ResourceLint
