import OperatorBundle.Proofs.Yaml.Continued.Run
import OperatorBundle.Yaml.Document

/-!
# First documents

What is read of a stream of one document is read of the first document of the stream, and what comes
behind a first document of whole lines does not matter.
-/

namespace OperatorBundle.Yaml

/-- The document of a stream that holds no other is the first document of the stream. -/
theorem Node.ofStreamStart_of_ofStream {stream : TokenStream} {content : Option (Node AnchorName)}
    (h : Node.ofStream stream = .ok content) : Node.ofStreamStart stream = .ok content := by
  obtain ⟨⟨first, rest⟩, hfirst, h⟩ := bind_eq_ok_iff.mp h
  obtain ⟨-, -, h⟩ := bind_eq_ok_iff.mp h
  cases h
  exact run'_eq_ok_iff.mpr ⟨rest, hfirst⟩

theorem readFirst_of_read {text : String} {v : Value} (h : read text = .ok v) :
    readFirst text = .ok (if v.isNull then none else some v) := by
  obtain ⟨content, hcontent, hvalue⟩ := bind_eq_ok_iff.mp h
  have hfirst : readFirstChars text.toList = .ok v :=
    bind_eq_ok_iff.mpr ⟨content, Node.ofStreamStart_of_ofStream hcontent, hvalue⟩
  exact bind_eq_ok_iff.mpr ⟨v, hfirst, rfl⟩

/-- A first document of whole lines is read alike, whatever comes behind the line `---`. -/
theorem readFirst_continues {text rest : String} {v : Value}
    (hlast : text.toList.getLast? = some '\n') (hadmissible : rest.toList.all isAdmissible = true)
    (h : readFirst text = .ok (some v)) : readFirst (text ++ "---\n" ++ rest) = .ok (some v) := by
  obtain ⟨w, hread, hw⟩ := bind_eq_ok_iff.mp h
  obtain ⟨content, hcontent, hvalue⟩ := bind_eq_ok_iff.mp hread
  cases content with
  | none => 
      cases hvalue
      cases hw
  | some node =>
      have htext : (text ++ "---\n" ++ rest).toList =
          text.toList ++ ('-' :: '-' :: '-' :: '\n' :: rest.toList) := by
        rw [String.toList_append, String.toList_append, List.append_assoc]
        rfl
      have hmore : IsDocumentLine ('-' :: '-' :: '-' :: '\n' :: rest.toList) := ⟨rest.toList, rfl⟩
      have hstream := TokenStream.ofText_continues hlast hmore hadmissible
      have hcontinues := Node.ofStreamStart_continues hstream hcontent
      refine bind_eq_ok_iff.mpr ⟨w, ?_, hw⟩
      rw [htext]
      exact bind_eq_ok_iff.mpr ⟨some node, hcontinues, hvalue⟩

end OperatorBundle.Yaml
