import Verdict.Proofs.Document.Checking

/-!
# Dependencies that nothing is known about

A notice is given of a dependency that nothing is known about. What is known is looked up in two ways.
The program takes documents of one name together, while the notices go through them one by one: an item
counts only if it stands in the same document as the inference.

> A dependency that stands for nothing in the program is always noted. One that stands for something is
> noted as well iff its document has no item of that name, no document is named so, and another document
> of the same name has the item (`Document.unknownDependency_mem_notices_iff`).

So the notices are exact for a name that only one document has, and in general they are not
(`Document.noted_and_resolved`).
-/

namespace Verdict

/-- A dependency on `p`, in the document `d`, stands for an item of that document or for a document. -/
def Program.Resolves (q : Program) (d p : String) : Prop :=
  (∃ t, (q.view ∅).Holds "assumption" [.text d, .text p, t]) ∨
    (q.view ∅).Holds "inference" [.text d, .text p] ∨ (q.view ∅).Holds "doc" [.text p]

namespace Document

/-- A document named `d` has an assumption or an inference `p`. -/
def HasItem (docs : List Document) (d p : String) : Prop :=
  (∃ v, Assumes docs d p v) ∨ Infers docs d p

/-- Of the documents named `d`, one draws the inference `i` from `p` without having an item `p`, and
another has it; and no document is named `p`. -/
def Divided (docs : List Document) (d i p : String) : Prop :=
  (∃ doc ∈ docs, doc.name = d ∧ Depends [doc] d i p ∧ ¬ HasItem [doc] d p) ∧ HasItem docs d p ∧
    ¬ ∃ doc ∈ docs, doc.name = p

variable {docs : List Document} {doc : Document} {d i p : String}

/-! ## One document among others -/

theorem depends_iff_exists :
    Depends docs d i p ↔ ∃ doc ∈ docs, doc.name = d ∧ Depends [doc] d i p := by
  constructor
  · rintro ⟨doc, hdoc, hname, hrest⟩
    exact ⟨doc, hdoc, hname, doc, List.mem_singleton_self doc, hname, hrest⟩
  · rintro ⟨doc, hdoc, hname, other, hother, hrest⟩
    rw [List.mem_singleton] at hother
    subst hother
    exact ⟨other, hdoc, hrest⟩

theorem HasItem.of_mem (hdoc : doc ∈ docs) (h : HasItem [doc] d p) : HasItem docs d p := by
  have hsub : ∀ other ∈ [doc], other ∈ docs := fun other hother => List.mem_singleton.1 hother ▸ hdoc
  rcases h with ⟨v, other, hother, hrest⟩ | ⟨other, hother, hrest⟩
  · exact Or.inl ⟨v, other, hsub other hother, hrest⟩
  · exact Or.inr ⟨other, hsub other hother, hrest⟩

/-- If only one document has the name, it has all items. -/
theorem HasItem.of_unique (hunique : ∀ other ∈ docs, other.name = d → other = doc)
    (h : HasItem docs d p) : HasItem [doc] d p := by
  rcases h with ⟨v, other, hother, hname, hrest⟩ | ⟨other, hother, hname, hrest⟩
  · exact Or.inl ⟨v, other, List.mem_singleton.2 (hunique other hother hname), hname, hrest⟩
  · exact Or.inr ⟨other, List.mem_singleton.2 (hunique other hother hname), hname, hrest⟩

theorem not_divided_of_unique
    (hunique : ∀ doc ∈ docs, ∀ other ∈ docs, doc.name = d → other.name = d → other = doc) :
    ¬ Divided docs d i p := by
  rintro ⟨⟨doc, hdoc, hname, -, hno⟩, hitem, -⟩
  exact hno (hitem.of_unique fun other hother hother' => hunique doc hdoc other hother hname hother')

/-! ## What is known -/

theorem mem_localKeys : p ∈ doc.localKeys ↔ HasItem [doc] doc.name p := by
  rw [localKeys, List.mem_eraseDups, List.mem_append, List.mem_map, List.mem_map]
  constructor
  · rintro (⟨a, ha, hkey⟩ | ⟨j, hj, hkey⟩)
    · exact Or.inl ⟨a.value, doc, List.mem_singleton_self doc, rfl, a, ha, hkey, rfl⟩
    · exact Or.inr ⟨doc, List.mem_singleton_self doc, rfl, j, hj, hkey⟩
  · rintro (⟨v, other, hother, -, a, ha, hkey, -⟩ | ⟨other, hother, -, j, hj, hkey⟩)
    · exact Or.inl ⟨a, List.mem_singleton.1 hother ▸ ha, hkey⟩
    · exact Or.inr ⟨j, List.mem_singleton.1 hother ▸ hj, hkey⟩

theorem resolves_ofDocuments :
    (Program.ofDocuments docs).Resolves d p ↔ HasItem docs d p ∨ ∃ doc ∈ docs, doc.name = p := by
  have hV := (Program.covers_empty (p := (.ofDocuments docs : Program))).reads
  simp only [Program.Resolves, HasItem, Check.holds_assumption hV, Check.holds_inference hV,
    Check.holds_doc hV, Term.text.injEq]
  constructor
  · rintro (⟨_, _, _, v, ha, rfl, rfl, -⟩ | ⟨_, _, hi, rfl, rfl⟩ | ⟨_, hdoc, rfl⟩)
    · exact Or.inl (Or.inl ⟨v, ha⟩)
    · exact Or.inl (Or.inr hi)
    · exact Or.inr hdoc
  · rintro ((⟨v, ha⟩ | hi) | hdoc)
    · exact Or.inl ⟨_, d, p, v, ha, rfl, rfl, rfl⟩
    · exact Or.inr (Or.inl ⟨d, p, hi, rfl, rfl⟩)
    · exact Or.inr (Or.inr ⟨p, hdoc, rfl⟩)

/-! ## What is noted -/

theorem mem_dependencyNotices {names : List String} :
    .unknownDependency i d p ∈ doc.dependencyNotices names ↔
      doc.name = d ∧ Depends [doc] d i p ∧ ¬ HasItem [doc] d p ∧ p ∉ names := by
  simp only [dependencyNotices, List.mem_flatMap, List.mem_map, List.mem_filter, decide_eq_true_eq]
  constructor
  · rintro ⟨j, hj, dep, ⟨hdep, hlocal, hnames⟩, e⟩
    cases e
    refine ⟨rfl, ?_, fun h => hlocal (mem_localKeys.2 h), hnames⟩
    exact ⟨doc, List.mem_singleton_self doc, rfl, j, hj, rfl, dep, hdep, rfl⟩
  · rintro ⟨rfl, ⟨other, hother, -, j, hj, rfl, dep, hdep, rfl⟩, hitem, hnames⟩
    rw [List.mem_singleton] at hother
    subst hother
    exact ⟨j, hj, dep, ⟨hdep, fun h => hitem (mem_localKeys.1 h), hnames⟩, rfl⟩

theorem unknownDependency_not_mem_importNotices {names : List String} :
    .unknownDependency i d p ∉ doc.importNotices names := by
  simp [importNotices]

/-- Each document is looked at with its own items and the names of all. -/
theorem mem_notices_iff_exists :
    .unknownDependency i d p ∈ notices docs ↔
      (∃ doc ∈ docs, doc.name = d ∧ Depends [doc] d i p ∧ ¬ HasItem [doc] d p) ∧
        ¬ ∃ doc ∈ docs, doc.name = p := by
  simp only [notices, List.mem_flatMap, List.mem_append, unknownDependency_not_mem_importNotices,
    or_false, mem_dependencyNotices, List.mem_map]
  constructor
  · rintro ⟨doc, hdoc, hname, hdep, hitem, hnames⟩
    exact ⟨⟨doc, hdoc, hname, hdep, hitem⟩, hnames⟩
  · rintro ⟨⟨doc, hdoc, hname, hdep, hitem⟩, hnames⟩
    exact ⟨doc, hdoc, hname, hdep, hitem, hnames⟩

theorem Divided.resolves (h : Divided docs d i p) : (Program.ofDocuments docs).Resolves d p :=
  resolves_ofDocuments.2 (Or.inl h.2.1)

theorem mem_notices_iff_or_divided :
    .unknownDependency i d p ∈ notices docs ↔
      Depends docs d i p ∧ ¬ (Program.ofDocuments docs).Resolves d p ∨ Divided docs d i p := by
  rw [mem_notices_iff_exists, resolves_ofDocuments, not_or]
  constructor
  · rintro ⟨⟨doc, hdoc, hname, hdep, hitem⟩, hnames⟩
    by_cases hother : HasItem docs d p
    · exact Or.inr ⟨⟨doc, hdoc, hname, hdep, hitem⟩, hother, hnames⟩
    · exact Or.inl ⟨depends_iff_exists.2 ⟨doc, hdoc, hname, hdep⟩, hother, hnames⟩
  · rintro (⟨hdep, hitem, hnames⟩ | ⟨hexists, -, hnames⟩)
    · obtain ⟨doc, hdoc, hname, hdep⟩ := depends_iff_exists.1 hdep
      exact ⟨⟨doc, hdoc, hname, hdep, fun h => hitem (h.of_mem hdoc)⟩, hnames⟩
    · exact ⟨hexists, hnames⟩

/-- **Noted are the dependencies that stand for nothing, and those that are divided** between documents of
one name. The latter stand for something all the same, and where no other document has the name there are
none. -/
theorem unknownDependency_mem_notices_iff (docs : List Document) (d i p : String) :
    (.unknownDependency i d p ∈ notices docs ↔
      Depends docs d i p ∧ ¬ (Program.ofDocuments docs).Resolves d p ∨ Divided docs d i p) ∧
    (Divided docs d i p → (Program.ofDocuments docs).Resolves d p) ∧
    ((∀ doc ∈ docs, ∀ other ∈ docs, doc.name = d → other.name = d → other = doc) →
      (.unknownDependency i d p ∈ notices docs ↔
        Depends docs d i p ∧ ¬ (Program.ofDocuments docs).Resolves d p)) := by
  refine ⟨mem_notices_iff_or_divided, Divided.resolves, fun hunique => ?_⟩
  rw [mem_notices_iff_or_divided, or_iff_left (not_divided_of_unique hunique)]

/-- Only one document is called the audit, and one of its inferences rests on nothing. -/
theorem unknownDependency_leases :
    (∀ doc ∈ leases, ∀ other ∈ leases, doc.name = "audit" → other.name = "audit" → other = doc) ∧
      Depends leases "audit" "8" "9" ∧ ¬ (Program.ofDocuments leases).Resolves "audit" "9" ∧
      .unknownDependency "8" "audit" "9" ∈ notices leases := by
  have hunique : ∀ doc ∈ leases, ∀ other ∈ leases,
      doc.name = "audit" → other.name = "audit" → other = doc := by decide
  have hnoted : .unknownDependency "8" "audit" "9" ∈ notices leases := by decide
  have hexact := (unknownDependency_mem_notices_iff leases "audit" "8" "9").2.2 hunique
  exact ⟨hunique, (hexact.1 hnoted).1, (hexact.1 hnoted).2, hnoted⟩

/-- Minutes in two files: what they conclude stands in another one than what they rest on. -/
def minutes : List Document :=
  [{ name := "minutes", assumptions := [{ id := .number 1, value := true }] },
   { name := "minutes", inferences := [{ id := .number 2, dependsOn := [.number 1] }] }]

/-- **A dependency may be noted as unknown though it stands for something**, and its value is found. -/
theorem noted_and_resolved :
    Depends minutes "minutes" "2" "1" ∧ (Program.ofDocuments minutes).Resolves "minutes" "1" ∧
      .unknownDependency "2" "minutes" "1" ∈ notices minutes ∧
      ∃ q, (evaluateAll minutes 10).result = .ok q ∧
        [.text "minutes", .text "2", .truth true] ∈ q.computed.factsOf "inference_check" := by
  refine ⟨?_, resolves_ofDocuments.2 (Or.inl (Or.inl ⟨true, ?_⟩)), by decide, _, rfl, by decide⟩
  · unfold Depends
    decide
  · unfold Assumes
    decide

end Document

end Verdict
