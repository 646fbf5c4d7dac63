import VariantGraph.Proofs.Resolution.Fetching

/-!
# What a batch leaves in the cache

The answers of a batch are gathered by key. As an answer is a function of the call, what is gathered
depends on which calls were made and not on when they were answered. Storing it either extends the
cache by every answer, or it fails with the first failure in key order, of module data before that
of listings.

Main statements: `Resolution.gather_answers` for what is gathered,
`Resolution.Batch.fetched_store` for what it leads to.
-/

namespace VariantGraph

variable {ε : Type}

/-- A call with its answer. -/
def Provider.answer (p : Provider ε) : Provider.Call → Resolution.Completion ε
  | .fetch id => .module id (p.fetch id)
  | .versions m => .listing m (p.versions m)

theorem Provider.answer_injective (p : Provider ε) : Function.Injective p.answer := by
  intro c c' h
  cases c <;> cases c' <;> simp_all [answer]

namespace Resolution

/-! ## Gathering -/

theorem completions_eq_map_answer (p : Provider ε) (modules : List Coordinates)
    (listings : List ModuleId) :
    completions p modules listings = (batchCalls modules listings).map p.answer := by
  simp [completions, batchCalls, Provider.answer, Function.comp_def]

theorem mem_batchCalls_fetch {modules : List Coordinates} {listings : List ModuleId}
    {id : Coordinates} : Provider.Call.fetch id ∈ batchCalls modules listings ↔ id ∈ modules := by
  simp [batchCalls]

theorem mem_batchCalls_versions {modules : List Coordinates} {listings : List ModuleId}
    {m : ModuleId} : Provider.Call.versions m ∈ batchCalls modules listings ↔ m ∈ listings := by
  simp [batchCalls]

theorem get?_modules_foldl_add (p : Provider ε) (calls : List Provider.Call) (b : Batch ε)
    (id : Coordinates) :
    ((calls.map p.answer).foldl Batch.add b).modules.get? id =
      if Provider.Call.fetch id ∈ calls then some (p.fetch id) else b.modules.get? id := by
  induction calls generalizing b with
  | nil => simp
  | cons c rest ih =>
    rw [List.map_cons, List.foldl_cons, ih]
    cases c with
    | versions m => simp [Provider.answer, Batch.add]
    | fetch id' =>
      by_cases hid : id = id'
      · subst hid
        simp [Provider.answer, Batch.add]
      · simp [Provider.answer, Batch.add, hid]

theorem get?_listings_foldl_add (p : Provider ε) (calls : List Provider.Call) (b : Batch ε)
    (m : ModuleId) :
    ((calls.map p.answer).foldl Batch.add b).listings.get? m =
      if Provider.Call.versions m ∈ calls then some (p.versions m) else b.listings.get? m := by
  induction calls generalizing b with
  | nil => simp
  | cons c rest ih =>
    rw [List.map_cons, List.foldl_cons, ih]
    cases c with
    | fetch id => simp [Provider.answer, Batch.add]
    | versions m' =>
      by_cases hm : m = m'
      · subst hm
        simp [Provider.answer, Batch.add]
      · simp [Provider.answer, Batch.add, hm]

/-- What is gathered from the answers to some calls. -/
theorem gather_answers (p : Provider ε) (calls : List Provider.Call) :
    (∀ id, (gather (calls.map p.answer)).modules.get? id =
      if Provider.Call.fetch id ∈ calls then some (p.fetch id) else none) ∧
    ∀ m, (gather (calls.map p.answer)).listings.get? m =
      if Provider.Call.versions m ∈ calls then some (p.versions m) else none :=
  ⟨fun id => get?_modules_foldl_add p calls {} id, fun m => get?_listings_foldl_add p calls {} m⟩

/-- Batches that hold the same results are equal. -/
theorem Batch.ext_get? {b b' : Batch ε} (hmodules : ∀ id, b.modules.get? id = b'.modules.get? id)
    (hlistings : ∀ m, b.listings.get? m = b'.listings.get? m) : b = b' := by
  obtain ⟨modules, listings⟩ := b
  obtain ⟨modules', listings'⟩ := b'
  obtain rfl : modules = modules' := Table.ext_get? hmodules
  obtain rfl : listings = listings' := Table.ext_get? hlistings
  rfl

/-- The order in which calls are answered does not show in what is gathered. -/
theorem gather_answers_of_perm {calls calls' : List Provider.Call} (h : calls.Perm calls')
    (p : Provider ε) : gather (calls.map p.answer) = gather (calls'.map p.answer) := by
  obtain ⟨hmodules, hlistings⟩ := gather_answers p calls
  obtain ⟨hmodules', hlistings'⟩ := gather_answers p calls'
  refine Batch.ext_get? (fun id => ?_) (fun m => ?_)
  · rw [hmodules, hmodules', if_congr h.mem_iff rfl rfl]
  · rw [hlistings, hlistings', if_congr h.mem_iff rfl rfl]

/-! ## Storing results -/

section Storing

variable {κ α β μ : Type} {store : β → κ × Except ε α → Except ε β} {put : β → κ → α → β}

/-- Storing results one after the other ends with the first failure or stores them all. -/
theorem foldlM_store_cases (hstore : ∀ b k r, store b (k, r) = r.map (put b k))
    (l : List (κ × Except ε α)) (b : β) :
    (∃ before k e after, l = before ++ (k, .error e) :: after ∧
      (∀ x ∈ before, ∃ a, x.2 = .ok a) ∧ l.foldlM store b = .error e) ∨
    (∀ x ∈ l, ∃ a, x.2 = .ok a) ∧ ∃ b', l.foldlM store b = .ok b' := by
  induction l generalizing b with
  | nil => exact .inr ⟨by simp, b, rfl⟩
  | cons x rest ih =>
    obtain ⟨k, r⟩ := x
    cases r with
    | error e =>
      refine .inl ⟨[], k, e, rest, rfl, by simp, ?_⟩
      rw [List.foldlM_cons, hstore]
      rfl
    | ok a =>
      have hcons : ((k, .ok a) :: rest).foldlM store b = rest.foldlM store (put b k a) := by
        rw [List.foldlM_cons, hstore]
        rfl
      rw [hcons]
      rcases ih (put b k a) with ⟨before, k', e, after, rfl, hbefore, he⟩ | ⟨hrest, hok⟩
      · refine .inl ⟨(k, .ok a) :: before, k', e, after, rfl, ?_, he⟩
        simpa using hbefore
      · exact .inr ⟨by simpa using hrest, hok⟩

variable [Ord κ] [Std.TransOrd κ] [Std.LawfulEqOrd κ]

/-- Storing a table of results ends with the failure of the lowest key that has one, or stores them
all. -/
theorem foldlM_store_table_cases (hstore : ∀ b k r, store b (k, r) = r.map (put b k))
    (t : Table κ (Except ε α)) (b : β) :
    (∃ k e, t.get? k = some (.error e) ∧
      (∀ k' r, compare k' k = .lt → t.get? k' = some r → ∃ a, r = .ok a) ∧
      t.toList.foldlM store b = .error e) ∨
    (∀ k r, t.get? k = some r → ∃ a, r = .ok a) ∧ ∃ b', t.toList.foldlM store b = .ok b' := by
  rcases foldlM_store_cases hstore t.toList b with
    ⟨before, k, e, after, hsplit, hbefore, he⟩ | ⟨hall, hok⟩
  · refine .inl ⟨k, e, ?_, fun k' r hlt hr => ?_, he⟩
    · rw [← Table.mem_toList_iff, hsplit]
      simp
    · -- a lower key stands before the one that fails
      rw [← Table.mem_toList_iff, hsplit] at hr
      have hascending := t.ascending
      rw [show t.entries = before ++ (k, .error e) :: after from hsplit,
        List.pairwise_append, List.pairwise_cons] at hascending
      obtain ⟨-, ⟨hafter, -⟩, -⟩ := hascending
      rcases List.mem_append.1 hr with hr | hr
      · exact hbefore _ hr
      · rcases List.mem_cons.1 hr with heq | hr
        · obtain ⟨rfl, -⟩ := Prod.mk.inj heq
          rw [Std.ReflOrd.compare_self] at hlt
          cases hlt
        · have hgt := Std.OrientedCmp.gt_of_lt (hafter _ hr)
          rw [hgt] at hlt
          cases hlt
  · exact .inr ⟨fun k r hr => hall _ (Table.mem_toList_iff.2 hr), hok⟩

/-- What a look-up finds after results have been stored. -/
theorem view_of_foldlM_store [DecidableEq κ] (hstore : ∀ b k r, store b (k, r) = r.map (put b k))
    {view : β → κ → Option μ} (value : α → μ)
    (hview : ∀ b k a k', view (put b k a) k' = if k' = k then some (value a) else view b k')
    {t : Table κ (Except ε α)} {b b' : β} (h : t.toList.foldlM store b = .ok b') (k : κ) :
    view b' k = (((t.get? k).bind Except.toOption).map value).or (view b k) := by
  obtain ⟨l, hl⟩ := t
  suffices hlist : view b' k =
      (((Table.lookupEntry k l).bind Except.toOption).map value).or (view b k) from hlist
  replace h : l.foldlM store b = .ok b' := h
  induction l generalizing b with
  | nil =>
    obtain rfl : b = b' := Except.ok.inj h
    rfl
  | cons x rest ih =>
    obtain ⟨k', r⟩ := x
    obtain ⟨hfirst, hrest⟩ := List.pairwise_cons.1 hl
    cases r with
    | error e =>
      rw [List.foldlM_cons, hstore] at h
      cases h
    | ok a =>
      rw [List.foldlM_cons, hstore] at h
      rw [ih hrest h, hview]
      by_cases hk : k = k'
      · subst hk
        have hnone : Table.lookupEntry k rest = none :=
          Table.lookupEntry_eq_none fun e he => hfirst e he
        simp [Table.lookupEntry, hnone, Except.toOption]
      · have hne : compare k k' ≠ .eq := fun hc => hk (Std.LawfulEqOrd.eq_of_compare hc)
        simp [Table.lookupEntry, hne, hk]

end Storing

/-! ## Batches -/

/-- What storing the answers of a provider to some calls leads to: the cache with every answer in
it, or the failure of the lowest key that has one, where listings count only if no module data
fails. -/
inductive Fetched (p : Provider ε) (rules : Rules) (modules : List Coordinates)
    (listings : List ModuleId) (c : Cache) : Except ε Cache → Prop
  | ok {c' : Cache}
      (module : ∀ id ∈ modules, ∃ data, p.fetch id = .ok data ∧
        c'.module? id = some (data.map rules.reviseMetadata))
      (otherModule : ∀ id, id ∉ modules → c'.module? id = c.module? id)
      (listing : ∀ m ∈ listings, ∃ versions, p.versions m = .ok versions ∧
        c'.listing? m = some versions)
      (otherListing : ∀ m, m ∉ listings → c'.listing? m = c.listing? m) :
      Fetched p rules modules listings c (.ok c')
  | moduleFails {id : Coordinates} {e : ε} (mem : id ∈ modules) (fails : p.fetch id = .error e)
      (first : ∀ id' ∈ modules, compare id' id = .lt → ∃ data, p.fetch id' = .ok data) :
      Fetched p rules modules listings c (.error e)
  | listingFails {m : ModuleId} {e : ε}
      (noModuleFails : ∀ id ∈ modules, ∃ data, p.fetch id = .ok data)
      (mem : m ∈ listings) (fails : p.versions m = .error e)
      (first : ∀ m' ∈ listings, compare m' m = .lt → ∃ versions, p.versions m' = .ok versions) :
      Fetched p rules modules listings c (.error e)

theorem storeModule_eq (rules : Rules) (c : Cache) (id : Coordinates)
    (r : Except ε (Option ModuleData)) : storeModule rules c (id, r) =
      r.map fun data => c.insertModule id (data.map rules.reviseMetadata) := rfl

theorem storeListing_eq (c : Cache) (m : ModuleId) (r : Except ε (List String)) :
    storeListing c (m, r) = r.map fun versions => c.insertListing m versions := rfl

theorem module?_of_storeModules {rules : Rules}
    {t : Table Coordinates (Except ε (Option ModuleData))} {c c' : Cache}
    (h : t.toList.foldlM (storeModule rules) c = .ok c') (id : Coordinates) :
    c'.module? id = (((t.get? id).bind Except.toOption).map
      (Option.map rules.reviseMetadata)).or (c.module? id) :=
  view_of_foldlM_store (storeModule_eq rules) (Option.map rules.reviseMetadata)
    (fun c id _ id' => Cache.module?_insertModule c id id' _) h id

theorem listing?_of_storeListings {t : Table ModuleId (Except ε (List String))} {c c' : Cache}
    (h : t.toList.foldlM storeListing c = .ok c') (m : ModuleId) :
    c'.listing? m = ((t.get? m).bind Except.toOption).or (c.listing? m) := by
  have hview := view_of_foldlM_store storeListing_eq id
    (fun c m versions m' => Cache.listing?_insertListing c m m' versions) h m
  rwa [Option.map_id_fun, id_eq] at hview

theorem listings_of_storeModules {rules : Rules}
    {l : List (Coordinates × Except ε (Option ModuleData))} {c c' : Cache}
    (h : l.foldlM (storeModule rules) c = .ok c') : c'.listings = c.listings := by
  refine foldlM_ok_induction (P := fun x => x.listings = c.listings) ?_ rfl h
  rintro ⟨id, r⟩ - c₁ c₂ hc₁ hstore
  cases r with
  | error e => cases hstore
  | ok data =>
    obtain rfl := Except.ok.inj hstore
    exact hc₁

theorem modules_of_storeListings {l : List (ModuleId × Except ε (List String))} {c c' : Cache}
    (h : l.foldlM storeListing c = .ok c') : c'.modules = c.modules := by
  refine foldlM_ok_induction (P := fun x => x.modules = c.modules) ?_ rfl h
  rintro ⟨m, r⟩ - c₁ c₂ hc₁ hstore
  cases r with
  | error e => cases hstore
  | ok versions =>
    obtain rfl := Except.ok.inj hstore
    exact hc₁

theorem Batch.module?_of_store {b : Batch ε} {rules : Rules} {c c' : Cache}
    (h : b.store rules c = .ok c') (id : Coordinates) :
    c'.module? id = (((b.modules.get? id).bind Except.toOption).map
      (Option.map rules.reviseMetadata)).or (c.module? id) := by
  obtain ⟨c₁, hmodules, hlistings⟩ := bind_eq_ok_iff.1 h
  rw [Cache.module?, modules_of_storeListings hlistings, ← module?_of_storeModules hmodules id]
  rfl

theorem Batch.listing?_of_store {b : Batch ε} {rules : Rules} {c c' : Cache}
    (h : b.store rules c = .ok c') (m : ModuleId) :
    c'.listing? m = ((b.listings.get? m).bind Except.toOption).or (c.listing? m) := by
  obtain ⟨c₁, hmodules, hlistings⟩ := bind_eq_ok_iff.1 h
  rw [listing?_of_storeListings hlistings, Cache.listing?, listings_of_storeModules hmodules]
  rfl

/-- Storing what is gathered of a batch leads to what its answers are. -/
theorem Batch.fetched_store (p : Provider ε) (rules : Rules) (modules : List Coordinates)
    (listings : List ModuleId) (c : Cache) :
    Fetched p rules modules listings c
      ((gather (completions p modules listings)).store rules c) := by
  rw [completions_eq_map_answer]
  obtain ⟨hmodules, hlistings⟩ := gather_answers p (batchCalls modules listings)
  generalize gather ((batchCalls modules listings).map p.answer) = b at hmodules hlistings
  simp only [mem_batchCalls_fetch] at hmodules
  simp only [mem_batchCalls_versions] at hlistings
  have hgetModule : ∀ id ∈ modules, b.modules.get? id = some (p.fetch id) := fun id hid => by
    rw [hmodules, if_pos hid]
  have hgetListing : ∀ m ∈ listings, b.listings.get? m = some (p.versions m) := fun m hm => by
    rw [hlistings, if_pos hm]
  -- Module data is stored first, so that a failure of it goes before one of a listing.
  rcases foldlM_store_table_cases (storeModule_eq rules) b.modules c with
    ⟨id, e, hid, hfirst, he⟩ | ⟨hallModules, c₁, hok⟩
  · rw [hmodules, Option.ite_none_right_eq_some, Option.some.injEq] at hid
    rw [store, he]
    exact .moduleFails hid.1 hid.2 fun id' hid' hlt => hfirst id' _ hlt (hgetModule id' hid')
  have hstore : b.store rules c = b.listings.toList.foldlM storeListing c₁ := by
    rw [store, hok]
    rfl
  rcases foldlM_store_table_cases storeListing_eq b.listings c₁ with
    ⟨m, e, hm, hfirst, he⟩ | ⟨hallListings, c₂, hokListings⟩
  · rw [hlistings, Option.ite_none_right_eq_some, Option.some.injEq] at hm
    rw [hstore, he]
    exact .listingFails (fun id hid => hallModules id _ (hgetModule id hid)) hm.1 hm.2
      fun m' hm' hlt => hfirst m' _ hlt (hgetListing m' hm')
  rw [hokListings] at hstore
  rw [hstore]
  refine .ok (fun id hid => ?_) (fun id hid => ?_) (fun m hm => ?_) (fun m hm => ?_)
  · obtain ⟨data, hdata⟩ := hallModules id _ (hgetModule id hid)
    refine ⟨data, hdata, ?_⟩
    rw [module?_of_store hstore, hgetModule id hid, hdata]
    rfl
  · rw [module?_of_store hstore, hmodules, if_neg hid]
    rfl
  · obtain ⟨versions, hversions⟩ := hallListings m _ (hgetListing m hm)
    refine ⟨versions, hversions, ?_⟩
    rw [listing?_of_store hstore, hgetListing m hm, hversions]
    rfl
  · rw [listing?_of_store hstore, hlistings, if_neg hm]
    rfl

end Resolution

end VariantGraph
