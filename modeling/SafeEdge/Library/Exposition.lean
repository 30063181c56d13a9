import SafeEdge.Library.Scanning

/-! The text exposition format: a comment or a sample on each line, and texts built of blocks of
whole lines. -/
namespace Library

/-- The name of a sample, with its labels, and its value. -/
def sample (line : List Char) : Option (List Char × List Char) :=
  if line.head? = some '#' then none else splitFirst ' ' line

def samples (text : List Char) : List (List Char × List Char) :=
  (text.splitOnP (· == '\n')).filterMap sample

/-- The block consists of whole lines, with these samples. -/
def Exposes (block : List Char) (found : List (List Char × List Char)) : Prop :=
  ∀ rest, samples (block ++ rest) = found ++ samples rest

namespace Exposes
variable {block block' : List Char} {found found' : List (List Char × List Char)}

theorem samples_eq (h : Exposes block found) : samples block = found := by
  have hempty : samples [] = [] := rfl
  simpa [hempty] using h []

theorem nil : Exposes [] [] := fun _ => rfl

theorem append (h : Exposes block found) (h' : Exposes block' found') :
    Exposes (block ++ block') (found ++ found') := by
  intro rest
  rw [List.append_assoc, h, h', List.append_assoc]

theorem flatten {blocks : List (List Char)} {all : List (List (List Char × List Char))}
    (h : List.Forall₂ Exposes blocks all) : Exposes blocks.flatten all.flatten := by
  induction h with
  | nil => exact nil
  | cons hblock _ ih => exact hblock.append ih

theorem line (text : List Char) (htext : '\n' ∉ text) :
    Exposes (text ++ ['\n']) (sample text).toList := by
  intro rest
  have hplain : ∀ c ∈ text, (c == '\n') = false := by
    intro c hc
    exact beq_false_of_ne fun heq => htext (heq ▸ hc)
  rw [samples, List.append_assoc, List.singleton_append,
    List.splitOnP_append_cons_of_forall_mem hplain '\n' rfl]
  cases hsample : sample text <;> simp [samples, hsample]

theorem comment (text : List Char) (htext : '\n' ∉ text) :
    Exposes ('#' :: text ++ ['\n']) [] := by
  have hline := line ('#' :: text) (by simp [htext])
  simpa [sample] using hline

theorem sampleLine {name value : List Char} (hspace : ' ' ∉ name) (hcomment : name.head? ≠ some '#')
    (hname : '\n' ∉ name) (hvalue : '\n' ∉ value) :
    Exposes (name ++ ' ' :: value ++ ['\n']) [(name, value)] := by
  have hhead : (name ++ ' ' :: value).head? ≠ some '#' := by
    cases name with
    | nil => simp
    | cons c name => simpa using hcomment
  have hsample : sample (name ++ ' ' :: value) = some (name, value) := by
    rw [sample, if_neg hhead, splitFirst_append hspace]
  have hline := line (name ++ ' ' :: value) (by simp [hname, hvalue])
  rwa [hsample] at hline

end Exposes
end Library
