import OperatorBundle.Proofs.Yaml.Node.OfValue
import OperatorBundle.Proofs.Yaml.Scan.Block

/-!
# What is written is read again

A proper value that can be restored is written as a document that reads as that value: with the same
order of keys, the same tags and the same type of every scalar.
-/

namespace OperatorBundle.Yaml

/-- The characters of a proper value with readable tags read as its node says. -/
theorem readChars_node {v : Value} (h : v.IsProper)
    (hreadable : ∀ name ∈ v.tagNames, Property.isReadableTag name = true) :
    readChars (Layout.node 0 .root v) = Value.ofContent (some (v.nodeOf none)) := by
  rw [readChars, TokenStream.ofText_node h hreadable, Node.ofStream_tokens h]
  rfl

/-- A proper value with readable tags is written, and read again as it was, if and only if it can be
restored. -/
theorem exists_write_read_iff {v : Value} (h : v.IsProper)
    (hreadable : ∀ name ∈ v.tagNames, Property.isReadableTag name = true) :
    (∃ text, write v = some text ∧ read text = .ok v) ↔ v.IsRestorable := by
  have hread : read (String.ofList (Layout.node 0 .root v)) = .ok v ↔
      v.nesting ≤ Value.depthLimit ∧ ∀ name ∈ v.tagNames, Value.isFaithfulTag name = true := by
    rw [read, String.toList_ofList, readChars_node h hreadable, Value.ofContent_nodeOf_iff h]
    refine and_congr_right fun _ => forall₂_congr fun name hname => ?_
    exact Value.restoredTag_eq_iff (h.ne_empty_of_mem_tagNames hname) (hreadable name hname)
  have hwritable := Value.isWritable_iff h true fun hfalse => by cases hfalse
  constructor
  · rintro ⟨text, hwrite, hback⟩
    cases hfree : Layout.isWritable true v with
    | false =>
        rw [write, writeChars, hfree] at hwrite
        cases hwrite
    | true =>
        rw [write, writeChars, hfree] at hwrite
        cases hwrite
        rcases hread.mp hback with ⟨hdepth, htags⟩
        exact ⟨hdepth, htags, hwritable.mp hfree⟩
  · intro hrestorable
    refine ⟨String.ofList (Layout.node 0 .root v), ?_, ?_⟩
    · rw [write, writeChars, if_pos (hwritable.mpr hrestorable.keys)]
      rfl
    · exact hread.mpr ⟨hrestorable.shallow, hrestorable.tags⟩

end OperatorBundle.Yaml
