import VariantGraph.Document.Writer
import VariantGraph.Publication.Document

/-!
# Writing the document of a publication to an output

The document is complete before its text is handed to the output. The output may refuse the text, or
take a part of it before it fails; what becomes of it then is its own affair.
-/

namespace VariantGraph

/-- Something that text is written to, by what becomes of its state. -/
structure Output (σ ε : Type) where
  put : String → σ → Except ε Unit × σ

/-- An output that keeps everything. -/
def Output.text : Output String Empty where
  put s out := (.ok (), out ++ s)

/-- Why a document is not written. -/
inductive WritingError (ε : Type) where
  | publication (error : PublicationError)
  | output (error : ε)
deriving DecidableEq, Repr

namespace Publication

variable {σ ε : Type}

/-- Writes the document of a publication to an output. -/
def generate (o : Output σ ε) (b : Build) (all : List Publication) (p : Publication) (out : σ) :
    Except (WritingError ε) Unit × σ :=
  match p.document b all with
  | .error e => (.error (.publication e), out)
  | .ok d =>
    match o.put d.write out with
    | (result, out) => (result.mapError .output, out)

end Publication

end VariantGraph
