import HostScript.Bytecode.Listing
import HostScript.Proofs.Compile.Structure

/-!
# Headers in a listing

A listing goes through the code once and writes a header when its offset is reached. The headers are
sorted beforehand, and the sort keeps the order of those with one offset. So every instruction is
listed once and in order, and every header that has an instruction at its offset stands right before
that instruction, with at most headers of the same offset between them.

In a compiled unit every body starts at an offset of its own, so the listing shows the
bodies one by one.
-/

namespace HostScript

/-- The entry of a header line. -/
def ListingLine.header? : ListingLine → Option Entry
  | .header entry => some entry
  | .instruction .. => none

/-- Whether a line shows an instruction. -/
def ListingLine.isInstruction : ListingLine → Bool
  | .header _ => false
  | .instruction .. => true

/-- What a line begins with: a header with the name of its body, the line of an instruction with the
offset and the mnemonic. -/
def ListingLine.lead : ListingLine → String
  | .header entry => entry.name
  | .instruction offset i => Text.fourDigits offset ++ "  " ++ i.mnemonic

/-- The lines of code that stands at an offset, without headers. -/
def instructionLines (offset : Nat) : List Instruction → List ListingLine
  | [] => []
  | i :: rest => .instruction offset i :: instructionLines (offset + 1) rest

/-- The lines of code that stands at an offset, each after the headers of its own offset. -/
def linesInPlace (headersAt : Nat → List Entry) (offset : Nat) : List Instruction → List ListingLine
  | [] => []
  | i :: rest =>
    (headersAt offset).map .header ++ .instruction offset i ::
      linesInPlace headersAt (offset + 1) rest

namespace CodeUnit

/-- The bodies that a listing may show, the top-level code last. -/
def listed (u : CodeUnit) : List Entry :=
  u.functions.toList ++ [u.top]

/-- The bodies that start at an offset, the top-level code last. -/
def headersAt (u : CodeUnit) (offset : Nat) : List Entry :=
  u.listed.filter (·.start == offset)

end CodeUnit

section Pass

variable {headers : List Entry} {offset : Nat}

/-- The headers that are left over when those up to an offset are taken from sorted ones start
later. -/
theorem start_gt_of_mem_dropWhile (hsorted : headers.Pairwise fun a b => a.start ≤ b.start)
    {entry : Entry} (h : entry ∈ headers.dropWhile fun entry => entry.start ≤ offset) :
    offset < entry.start := by
  induction headers with
  | nil => cases h
  | cons first rest ih =>
    obtain ⟨hfirst, hrest⟩ := List.pairwise_cons.mp hsorted
    rw [List.dropWhile_cons] at h
    split at h
    · exact ih hrest h
    next hlate =>
      have hlate' : offset < first.start := by simpa using hlate
      rcases List.mem_cons.mp h with rfl | hmem
      · exact hlate'
      · exact Nat.lt_of_lt_of_le hlate' (hfirst entry hmem)

/-- Sorted headers of which none is overdue are those of the offset, which are taken, and later
ones, which are left over. -/
theorem filter_start_eq (hsorted : headers.Pairwise fun a b => a.start ≤ b.start)
    (hge : ∀ entry ∈ headers, offset ≤ entry.start) (k : Nat) :
    headers.filter (·.start == k) =
      if k = offset then headers.takeWhile fun entry => entry.start ≤ offset
      else (headers.dropWhile fun entry => entry.start ≤ offset).filter (·.start == k) := by
  have hdue :
      ∀ entry ∈ headers.takeWhile fun entry => entry.start ≤ offset, entry.start = offset := by
    intro entry hentry
    have hle : entry.start ≤ offset := by
      simpa using List.all_eq_true.mp List.all_takeWhile entry hentry
    exact Nat.le_antisymm hle (hge entry ((List.takeWhile_sublist _).subset hentry))
  have hsplit := congrArg (List.filter (·.start == k))
    (List.takeWhile_append_dropWhile (p := fun entry : Entry => decide (entry.start ≤ offset))
      (l := headers))
  rw [List.filter_append] at hsplit
  rw [← hsplit]
  split
  next hk =>
    rw [List.filter_eq_self.mpr fun entry hentry => by simp [hdue entry hentry, hk],
      List.filter_eq_nil_iff.mpr fun entry hentry => ?_, List.append_nil]
    have := start_gt_of_mem_dropWhile hsorted hentry
    simp only [beq_iff_eq]
    omega
  next hk =>
    rw [List.filter_eq_nil_iff.mpr fun entry hentry => ?_, List.nil_append]
    rw [hdue entry hentry, beq_iff_eq]
    exact fun h => hk h.symm

/-- Lines in place do not depend on headers of earlier offsets. -/
theorem linesInPlace_congr {f g : Nat → List Entry} (code : List Instruction)
    (h : ∀ k, offset ≤ k → f k = g k) :
    linesInPlace f offset code = linesInPlace g offset code := by
  induction code generalizing offset with
  | nil => rfl
  | cons i rest ih =>
    rw [linesInPlace, linesInPlace, h offset (Nat.le_refl _),
      ih fun k hk => h k (Nat.le_of_succ_le hk)]

/-- One pass through the code puts sorted headers in their places. -/
theorem listingFrom_eq (written : List ListingLine)
    (hsorted : headers.Pairwise fun a b => a.start ≤ b.start)
    (hge : ∀ entry ∈ headers, offset ≤ entry.start) (code : List Instruction) :
    listingFrom written offset headers code =
      written.reverse ++ linesInPlace (fun k => headers.filter (·.start == k)) offset code := by
  induction code generalizing written offset headers with
  | nil => simp [listingFrom, linesInPlace]
  | cons i rest ih =>
    have hplace := filter_start_eq hsorted hge
    have hlater : linesInPlace (fun k => headers.filter (·.start == k)) (offset + 1) rest =
        linesInPlace (fun k => (headers.dropWhile fun entry => entry.start ≤ offset).filter
            (·.start == k)) (offset + 1) rest := by
      refine linesInPlace_congr rest fun k hk => ?_
      rw [hplace, if_neg (Nat.ne_of_gt hk)]
    rw [listingFrom, ih _ (hsorted.sublist (List.dropWhile_sublist _)) fun entry =>
        start_gt_of_mem_dropWhile hsorted, List.foldl_flip_cons_eq_append, linesInPlace, hlater,
      hplace offset, if_pos rfl]
    simp

end Pass

namespace CodeUnit

variable (u : CodeUnit)

section Headers

theorem start_le_trans (a b c : Entry) (hab : decide (a.start ≤ b.start) = true)
    (hbc : decide (b.start ≤ c.start) = true) : decide (a.start ≤ c.start) = true := by
  rw [decide_eq_true_iff] at hab hbc ⊢
  exact Nat.le_trans hab hbc

theorem start_le_total (a b : Entry) :
    (decide (a.start ≤ b.start) || decide (b.start ≤ a.start)) = true := by
  rw [Bool.or_eq_true, decide_eq_true_iff, decide_eq_true_iff]
  exact Nat.le_total a.start b.start

/-- Every header of an offset starts there. -/
theorem start_of_mem_headersAt {k : Nat} {entry : Entry} (h : entry ∈ u.headersAt k) :
    entry.start = k :=
  beq_iff_eq.mp (List.mem_filter.mp h).2

theorem headers_perm : u.headers.Perm u.listed :=
  List.mergeSort_perm _ _

/-- Headers are sorted by their offset. -/
theorem pairwise_headers : u.headers.Pairwise fun a b => a.start ≤ b.start :=
  (List.pairwise_mergeSort start_le_trans start_le_total u.listed).imp of_decide_eq_true

/-- Headers of one offset are in the order of the table. -/
theorem filter_headers (k : Nat) : u.headers.filter (·.start == k) = u.headersAt k := by
  have hstart : ∀ entry ∈ u.headersAt k, entry.start = k := fun _ => u.start_of_mem_headersAt
  have hsorted : (u.headersAt k).Pairwise fun a b => decide (a.start ≤ b.start) = true := by
    refine List.pairwise_of_forall_mem_list fun a ha b hb => ?_
    exact decide_eq_true (Nat.le_of_eq ((hstart a ha).trans (hstart b hb).symm))
  -- They are a part of the sorted list in their old order, and there are no others in it.
  have hsub : (u.headersAt k).Sublist u.headers :=
    List.sublist_mergeSort start_le_trans start_le_total hsorted List.filter_sublist
  have hsub' := hsub.filter (·.start == k)
  rw [List.filter_eq_self.mpr fun entry hentry => beq_iff_eq.mpr (hstart entry hentry)] at hsub'
  exact (hsub'.eq_of_length (u.headers_perm.filter _).length_eq.symm).symm

end Headers

/-- A listing is the code in order, each instruction after the headers of its offset. -/
theorem listing_eq : u.listing = linesInPlace u.headersAt 0 u.code.toList := by
  rw [listing, listingFrom_eq [] u.pairwise_headers fun _ _ => Nat.zero_le _]
  simp only [filter_headers, List.reverse_nil, List.nil_append]

end CodeUnit

section InPlace

variable {f : Nat → List Entry} {offset : Nat} {code : List Instruction}

@[simp] theorem filter_map_header (entries : List Entry) :
    (entries.map ListingLine.header).filter (·.isInstruction) = [] := by
  simp [ListingLine.isInstruction]

@[simp] theorem filterMap_map_header (entries : List Entry) :
    (entries.map ListingLine.header).filterMap (·.header?) = entries := by
  rw [List.filterMap_map]
  exact List.filterMap_some

/-- Without its headers code in place is the code. -/
theorem filter_linesInPlace (f : Nat → List Entry) (offset : Nat) (code : List Instruction) :
    (linesInPlace f offset code).filter (·.isInstruction) = instructionLines offset code := by
  induction code generalizing offset with
  | nil => rfl
  | cons i rest ih =>
    rw [linesInPlace, List.filter_append, filter_map_header, List.nil_append,
      List.filter_cons_of_pos rfl, ih]
    rfl

/-- The headers of code in place: those of the first offset, then the others. -/
theorem headers_linesInPlace_cons (i : Instruction) (rest : List Instruction) :
    (linesInPlace f offset (i :: rest)).filterMap (·.header?) =
      f offset ++ (linesInPlace f (offset + 1) rest).filterMap (·.header?) := by
  rw [linesInPlace, List.filterMap_append, filterMap_map_header]
  rfl

/-- The headers of code in place that belong to an offset. -/
theorem filter_headers_linesInPlace (hf : ∀ k, ∀ entry ∈ f k, entry.start = k) (k : Nat) :
    ((linesInPlace f offset code).filterMap (·.header?)).filter (·.start == k) =
      if offset ≤ k ∧ k < offset + code.length then f k else [] := by
  induction code generalizing offset with
  | nil => rw [if_neg fun h => Nat.not_lt.mpr h.1 h.2]; rfl
  | cons i rest ih =>
    rw [headers_linesInPlace_cons, List.filter_append, ih, List.length_cons]
    by_cases hk : k = offset
    · rw [hk, List.filter_eq_self.mpr fun entry hentry => beq_iff_eq.mpr (hf offset entry hentry),
        if_neg fun h => Nat.not_succ_le_self offset h.1, if_pos ⟨Nat.le_refl _, by omega⟩,
        List.append_nil]
    · have hother : (f offset).filter (·.start == k) = [] := by
        refine List.filter_eq_nil_iff.mpr fun entry hentry => ?_
        rw [hf offset entry hentry, beq_iff_eq]
        exact fun h => hk h.symm
      rw [hother, List.nil_append]
      exact if_congr (by omega) rfl rfl

theorem start_ge_of_mem_headers (hf : ∀ k, ∀ entry ∈ f k, entry.start = k) {entry : Entry}
    (h : entry ∈ (linesInPlace f offset code).filterMap (·.header?)) : offset ≤ entry.start := by
  have hmem : entry ∈ ((linesInPlace f offset code).filterMap (·.header?)).filter
      (·.start == entry.start) :=
    List.mem_filter.mpr ⟨h, beq_self_eq_true _⟩
  rw [filter_headers_linesInPlace hf] at hmem
  split at hmem
  next hle => exact hle.1
  · cases hmem

/-- The headers of code in place are in the order of their offsets. -/
theorem pairwise_headers_linesInPlace (hf : ∀ k, ∀ entry ∈ f k, entry.start = k) :
    ((linesInPlace f offset code).filterMap (·.header?)).Pairwise fun a b => a.start ≤ b.start := by
  induction code generalizing offset with
  | nil => exact List.Pairwise.nil
  | cons i rest ih =>
    rw [headers_linesInPlace_cons, List.pairwise_append]
    refine ⟨List.pairwise_of_forall_mem_list fun a ha b hb => ?_, ih, fun a ha b hb => ?_⟩
    · exact Nat.le_of_eq ((hf offset a ha).trans (hf offset b hb).symm)
    · rw [hf offset a ha]
      exact Nat.le_of_succ_le (start_ge_of_mem_headers hf hb)

/-- A header of code in place comes after the instructions before its offset and before the
instruction at it, with at most headers of the same offset between. -/
theorem placed_linesInPlace (hf : ∀ k, ∀ entry ∈ f k, entry.start = k)
    {before after : List ListingLine} {entry : Entry}
    (h : linesInPlace f offset code = before ++ .header entry :: after) :
    before.filter (·.isInstruction) = instructionLines offset (code.take (entry.start - offset)) ∧
      ∃ (ties : List Entry) (i : Instruction) (rest : List ListingLine),
        after = ties.map .header ++ .instruction entry.start i :: rest ∧
          code[entry.start - offset]? = some i ∧ ∀ tie ∈ ties, tie.start = entry.start := by
  induction code generalizing offset before with
  | nil => cases before <;> cases h
  | cons i rest ih =>
    rw [linesInPlace, List.append_eq_append_iff] at h
    rcases h with ⟨between, rfl, h⟩ | ⟨those, hthose, h⟩
    · -- The header comes after the first instruction.
      obtain ⟨rfl, hrest⟩ | ⟨between, rfl, hrest⟩ := List.cons_eq_append_iff.mp h
      · cases hrest
      have hmem : entry ∈ (linesInPlace f (offset + 1) rest).filterMap (·.header?) :=
        List.mem_filterMap.mpr ⟨.header entry,
          hrest ▸ List.mem_append_right between List.mem_cons_self, rfl⟩
      have hge := start_ge_of_mem_headers hf hmem
      have hshift : entry.start - offset = entry.start - (offset + 1) + 1 := by omega
      obtain ⟨hearlier, hlater⟩ := ih hrest
      rw [hshift, List.getElem?_cons_succ, List.take_succ_cons, instructionLines, ← hearlier,
        List.filter_append, filter_map_header, List.nil_append]
      exact ⟨List.filter_cons_of_pos rfl, hlater⟩
    · -- The header is one of those before the first instruction.
      obtain ⟨rfl, h⟩ | ⟨others, rfl, rfl⟩ := List.cons_eq_append_iff.mp h
      · cases h
      obtain ⟨earlier, same, hsplit, rfl, hsame⟩ := List.map_eq_append_iff.mp hthose
      obtain ⟨first, ties, rfl, hfirst, rfl⟩ := List.map_eq_cons_iff.mp hsame
      obtain rfl : entry = first := (ListingLine.header.inj hfirst).symm
      have hstart : ∀ tie ∈ entry :: ties, tie.start = offset := fun tie htie =>
        hf offset tie (hsplit ▸ List.mem_append_right earlier htie)
      obtain ⟨hentry, hties⟩ := List.forall_mem_cons.mp hstart
      rw [hentry, Nat.sub_self]
      exact ⟨filter_map_header earlier, ties, i, _, rfl, rfl, hties⟩

end InPlace

namespace CodeUnit

/-- Whether a header stands in its place: after the instructions before its offset, and before the
instruction at it, with at most headers of the same offset between. -/
structure Placed (u : CodeUnit) (before : List ListingLine) (entry : Entry)
    (after : List ListingLine) : Prop where
  earlier : before.filter (·.isInstruction) = instructionLines 0 (u.code.toList.take entry.start)
  later : ∃ (ties : List Entry) (i : Instruction) (rest : List ListingLine),
    after = ties.map .header ++ .instruction entry.start i :: rest ∧ u.code[entry.start]? = some i ∧
      ∀ tie ∈ ties, tie.start = entry.start

/-- Whether lines show a unit. -/
structure ShownBy (u : CodeUnit) (lines : List ListingLine) : Prop where
  /-- Every instruction is shown once, in the order of the code. -/
  instructions : lines.filter (·.isInstruction) = instructionLines 0 u.code.toList
  /-- Every body that starts in the code has one header, and no other body has one. -/
  headers : (lines.filterMap (·.header?)).Perm (u.listed.filter (·.start < u.code.size))
  /-- Headers of one offset are in the order of the table, the top-level code last. -/
  ties : ∀ k < u.code.size, (lines.filterMap (·.header?)).filter (·.start == k) = u.headersAt k
  /-- Every header stands in its place. -/
  placed : ∀ (before : List ListingLine) (entry : Entry) (after : List ListingLine),
    lines = before ++ .header entry :: after → u.Placed before entry after

variable (u : CodeUnit)

/-- The headers of a listing that belong to an offset. -/
theorem filter_headers_listing (k : Nat) :
    (u.listing.filterMap (·.header?)).filter (·.start == k) =
      if k < u.code.size then u.headersAt k else [] := by
  rw [listing_eq, filter_headers_linesInPlace fun _ _ => u.start_of_mem_headersAt]
  exact if_congr (by simp) rfl rfl

/-- A listing shows its unit. -/
theorem shownBy_listing : u.ShownBy u.listing := by
  constructor
  · rw [listing_eq]
    exact filter_linesInPlace u.headersAt 0 u.code.toList
  · rw [List.perm_iff_count]
    intro entry
    -- The headers equal to an entry are among those of its offset.
    have hcount (entries : List Entry) :
        entries.count entry = (entries.filter (·.start == entry.start)).count entry :=
      (List.count_filter (p := fun e : Entry => e.start == entry.start) (beq_self_eq_true _)).symm
    rw [hcount, filter_headers_listing]
    by_cases hstart : entry.start < u.code.size
    · rw [if_pos hstart, List.count_filter (p := fun e : Entry => e.start < u.code.size)
          (decide_eq_true hstart), headersAt, ← hcount]
    · rw [if_neg hstart, List.count_nil, eq_comm, List.count_eq_zero]
      exact fun hmem => hstart (of_decide_eq_true (List.mem_filter.mp hmem).2)
  · intro k hk
    rw [filter_headers_listing, if_pos hk]
  · intro before entry after h
    rw [listing_eq] at h
    obtain ⟨hearlier, ties, i, rest, hafter, hi, hties⟩ :=
      placed_linesInPlace (fun _ _ => u.start_of_mem_headersAt) h
    exact ⟨hearlier, ties, i, rest, hafter, by simpa using hi, hties⟩

/-- An instruction is shown as its mnemonic and then its operands. -/
theorem exists_instructionText_eq (i : Instruction) :
    ∃ operands, u.instructionText i = i.mnemonic ++ operands := by
  cases i with
  | pushVoid | pop | loadIndex | storeIndex | returnValue | returnVoid =>
    exact ⟨"", String.append_empty.symm⟩
  | _ =>
    simp only [instructionText, String.append_assoc]
    exact ⟨_, rfl⟩

/-- The text of a line begins with its lead. -/
theorem exists_lineText_eq (line : ListingLine) : ∃ rest, u.lineText line = line.lead ++ rest := by
  cases line with
  | header entry =>
    simp only [lineText, ListingLine.lead]
    exact ⟨_, rfl⟩
  | instruction offset i =>
    obtain ⟨operands, hoperands⟩ := u.exists_instructionText_eq i
    refine ⟨operands, ?_⟩
    rw [lineText, hoperands, ListingLine.lead, ← String.append_assoc]

/-- The text of a listing is that of its lines, each of them ended. -/
theorem listingText_eq :
    u.listingText = String.join (u.listing.map fun line => u.lineText line ++ "\n") := by
  rw [listingText, String.join, List.foldl_map]
  simp only [String.append_assoc]

end CodeUnit

section Compiled

/-- Bodies that stand one after the other start at increasing offsets, in their code. -/
theorem Bound.Body.start_mem_entries {start : Nat} {bs : List Bound.Body} {entry : Entry}
    (h : entry ∈ Bound.Body.entries start bs) :
    start ≤ entry.start ∧ entry.start < start + Bound.Body.sizes bs := by
  induction bs generalizing start with
  | nil => cases h
  | cons b rest ih =>
    have hsize : 0 < b.size := Nat.succ_pos _
    rw [Bound.Body.sizes]
    rcases List.mem_cons.mp h with rfl | hmem
    · exact ⟨Nat.le_refl _, Nat.lt_add_of_pos_right (Nat.add_pos_left hsize _)⟩
    · have := ih hmem
      omega

theorem Bound.Body.pairwise_entries (start : Nat) (bs : List Bound.Body) :
    (Bound.Body.entries start bs).Pairwise fun a b => a.start < b.start := by
  induction bs generalizing start with
  | nil => exact List.Pairwise.nil
  | cons b rest ih =>
    refine List.pairwise_cons.mpr ⟨fun entry hentry => ?_, ih _⟩
    have hsize : 0 < b.size := Nat.succ_pos _
    exact Nat.lt_of_lt_of_le (Nat.lt_add_of_pos_right hsize) (Bound.Body.start_mem_entries hentry).1

variable {p : Program} {u : CodeUnit}

/-- The bodies of a compiled unit start at increasing offsets of the code. -/
theorem pairwise_entries_compile (h : compile p = .ok u) :
    u.entries.Pairwise (fun a b => a.start < b.start) ∧
      ∀ entry ∈ u.entries, entry.start < u.code.size := by
  obtain ⟨program, -, rfl⟩ := compile_eq_ok_iff.mp h
  rw [Bound.Program.entries_toUnit, Bound.Program.size_code_eq_sizes]
  refine ⟨Bound.Body.pairwise_entries 0 _, fun entry hentry => ?_⟩
  rw [← Nat.zero_add (Bound.Body.sizes program.bodies)]
  exact (Bound.Body.start_mem_entries hentry).2

/-- The bodies of a compiled unit are the top-level code and the functions of the
program, in order. -/
theorem names_entries_compile (h : compile p = .ok u) :
    u.entries.map (·.name) = topLevelName :: p.functions.map (·.name) := by
  obtain ⟨program, hbind, rfl⟩ := compile_eq_ok_iff.mp h
  have hfunctions := congrArg (List.map Prod.fst) (functions_toUnit hbind)
  simp only [List.map_map, Function.comp_def] at hfunctions
  rw [CodeUnit.entries, List.map_cons, hfunctions]
  congr 1
  obtain ⟨s, top, functions, -, htop, -, rfl⟩ := bind_program_eq_ok_iff.mp hbind
  rw [Bound.Program.toUnit_eq]
  exact (bindBody_signature (bindTopLevel_eq_ok_iff.mp htop)).1

/-- No two bodies of a compiled unit start at the same offset. -/
theorem eq_of_start_eq_compile (h : compile p = .ok u) {a b : Entry} (ha : a ∈ u.entries)
    (hb : b ∈ u.entries) (hstart : a.start = b.start) : a = b := by
  have hnodup : (u.entries.map (·.start)).Nodup :=
    List.pairwise_map.mpr ((pairwise_entries_compile h).1.imp Nat.ne_of_lt)
  exact List.inj_on_of_nodup_map hnodup ha hb hstart

/-- The listing of a compiled unit has one header for each body, in order. -/
theorem headers_listing_compile (h : compile p = .ok u) :
    u.listing.filterMap (·.header?) = u.entries := by
  obtain ⟨hpairwise, hlt⟩ := pairwise_entries_compile h
  have hlisted : u.listed.Perm u.entries := List.perm_append_comm
  have hperm : (u.listing.filterMap (·.header?)).Perm u.entries := by
    refine u.shownBy_listing.headers.trans ?_
    rw [List.filter_eq_self.mpr fun entry hentry =>
      decide_eq_true (hlt entry (hlisted.mem_iff.mp hentry))]
    exact hlisted
  have hsorted : (u.listing.filterMap (·.header?)).Pairwise fun a b => a.start ≤ b.start := by
    rw [CodeUnit.listing_eq]
    exact pairwise_headers_linesInPlace fun _ _ => u.start_of_mem_headersAt
  refine hperm.eq_of_pairwise (fun a b ha hb hab hba => ?_) hsorted (hpairwise.imp Nat.le_of_lt)
  exact eq_of_start_eq_compile h (hperm.mem_iff.mp ha) hb (Nat.le_antisymm hab hba)

/-- In the listing of a compiled unit a header comes directly before the first
instruction of its body. -/
theorem header_directly_before_compile (h : compile p = .ok u) {before after : List ListingLine}
    {entry : Entry} (hlisting : u.listing = before ++ .header entry :: after) :
    ∃ (i : Instruction) (rest : List ListingLine), after = .instruction entry.start i :: rest ∧
      u.code[entry.start]? = some i := by
  obtain ⟨ties, i, rest, rfl, hi, hties⟩ :=
    (u.shownBy_listing.placed before entry after hlisting).later
  cases ties with
  | nil => exact ⟨i, rest, rfl, hi⟩
  | cons tie ties =>
    -- A second header of the same offset would be one of another body.
    have hheaders := headers_listing_compile h
    have hpairwise := (pairwise_entries_compile h).1
    rw [← hheaders, hlisting, List.filterMap_append, List.pairwise_append] at hpairwise
    have hlt : entry.start < tie.start :=
      (List.pairwise_cons.mp hpairwise.2.1).1 tie List.mem_cons_self
    exact absurd (hties tie List.mem_cons_self) (Nat.ne_of_gt hlt)

end Compiled

/-- A listing shows every instruction once and in order, and every body that starts in the code
once, in its place; bodies of one offset are in the order of the table. The text has one entry for
each line, which begins with the name of the body or with the offset and the mnemonic of the
instruction. The listing of a compiled unit shows the top-level code first, then the functions in
the order of their declaration, each directly before its first instruction. -/
theorem listing_shows :
    (∀ u : CodeUnit, u.ShownBy u.listing ∧
      u.listingText = String.join (u.listing.map fun line => u.lineText line ++ "\n") ∧
      ∀ line ∈ u.listing, ∃ rest, u.lineText line = line.lead ++ rest) ∧
    (∀ (p : Program) (u : CodeUnit), compile p = .ok u →
      u.listing.filterMap (·.header?) = u.entries ∧ u.entries.length = u.functions.size + 1 ∧
      u.entries.map (·.name) = topLevelName :: p.functions.map (·.name) ∧
      ∀ (before : List ListingLine) (entry : Entry) (after : List ListingLine),
        u.listing = before ++ .header entry :: after →
          ∃ (i : Instruction) (rest : List ListingLine),
            after = .instruction entry.start i :: rest ∧
            u.code[entry.start]? = some i) := by
  refine ⟨fun u => ⟨u.shownBy_listing, u.listingText_eq, fun line _ => u.exists_lineText_eq line⟩,
    fun p u h => ?_⟩
  exact ⟨headers_listing_compile h, by simp [CodeUnit.entries], names_entries_compile h,
    fun before entry after => header_directly_before_compile h⟩

/-- A unit whose table is not in the order of the code, with two bodies of one offset
and one past the end. -/
def tiedUnit : CodeUnit where
  code := #[.pushVoid, .pop]
  top := { name := topLevelName, start := 1, arity := 0, locals := 0 }
  functions :=
    #[{ name := "beyond", start := 2, arity := 0, locals := 0 },
      { name := "second", start := 1, arity := 0, locals := 0 },
      { name := "first", start := 0, arity := 0, locals := 0 }]

/-- Of two bodies with one offset the function is listed before the top-level code. The program with
a loop that is left early is listed with its top-level code first. -/
theorem tiedUnit_listing_shows :
    ((tiedUnit.listing.filterMap (·.header?)).filter (·.start == 1)).map (·.name) =
      ["second", topLevelName] ∧
      ∃ u, compile searchProgram = .ok u ∧
        (u.listing.filterMap (·.header?)).map (·.name) = [topLevelName, "find"] := by
  obtain ⟨hunit, hcompiled⟩ := listing_shows
  obtain ⟨u, hu, -⟩ := compile_searchProgram
  obtain ⟨hheaders, -, hnames, -⟩ := hcompiled searchProgram u hu
  refine ⟨?_, u, hu, ?_⟩
  · rw [(hunit tiedUnit).1.ties 1 (by decide)]
    rfl
  · rw [hheaders, hnames]
    rfl

end HostScript
