import Mailgrid.Proofs.Engine.Total
import Mailgrid.Proofs.Markup.Hollow

/-!
# Void elements of a document

The reader knows of more void elements than a writer of documents does. So no
void element of a document that was read has content, however its tags were
written.
-/

namespace Mailgrid

open Markup (Forest Grammar NameSet hollow_of_parse)
open Text (BracketsIf)

namespace VoidElement

theorem contains_void_of_mem {name : String} (h : name ∈ names) :
    Grammar.standard.void.contains name = true := by
  have hknown : ∀ name ∈ names, Grammar.standard.void.contains name = true := by decide
  exact hknown name h

end VoidElement

theorem Format.hollow_of_read {text : String} {f : Forest Unit}
    (h : Format.standard.read text = .ok f) : f.Hollow Grammar.standard.void := by
  rw [read_standard] at h
  exact hollow_of_parse h

namespace Document

theorem hollow_of_load {text : String} {d : Document}
    (h : load Format.standard text = .ok d) : d.content.Hollow Grammar.standard.void := by
  simp only [load, read, noteSpelling, empty, bind_eq_ok, pure_eq_ok] at h
  obtain ⟨f, hf, rfl⟩ := h
  exact (Format.hollow_of_read hf).leading.number 0

end Document

end Mailgrid
