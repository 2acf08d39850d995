import Aegis.Waf.Proxy

/-! The rules and the query string. The rules read the query as it was sent; the backend
reads it percent-decoded. -/
namespace Aegis.Waf

def hexValue (b : UInt8) : Option UInt8 :=
  if 48 ≤ b ∧ b ≤ 57 then some (b - 48)
  else if 65 ≤ b ∧ b ≤ 70 then some (b - 55)
  else if 97 ≤ b ∧ b ≤ 102 then some (b - 87)
  else none

/-- Every `%XY` is replaced by its byte; a percent sign without two digits stays. -/
def percentDecode : Bytes → Bytes
  | 37 :: high :: low :: rest =>
    match hexValue high, hexValue low with
    | some h, some l => (16 * h + l) :: percentDecode rest
    | _, _ => 37 :: percentDecode (high :: low :: rest)
  | b :: rest => b :: percentDecode rest
  | [] => []

/-- The query as the backend interprets it. -/
def Request.decodedQuery (r : Request) : Text :=
  Text.decodeIgnore (percentDecode (Text.encode r.query))

theorem mem_sharpSigs {s : Text × FloatVal} (hs : s ∈ highRiskSigs) (hscore : .fin 0.95 < s.2)
    (hblank : ' ' ∉ s.1) : s ∈ sharpSigs := by
  have hall : ∀ s ∈ highRiskSigs, .fin 0.95 < s.2 → ' ' ∉ s.1 → s ∈ sharpSigs := by
    decide +kernel
  exact hall s hs hscore hblank

theorem extractHttpFeatures_query {r : Request} (h : r.query ≠ []) :
    ∃ before after, extractHttpFeatures r = before ++ r.query ++ after := by
  unfold extractHttpFeatures Request.url
  rw [if_neg h]
  refine ⟨r.method ++ [' '] ++ (r.path ++ ['?']), ?_, ?_⟩
  swap
  · simp only [List.append_assoc]
    rfl

theorem toLower_eq_blank {c : Char} (h : c.toLower = ' ') : c = ' ' := by
  by_cases hupper : c.val ≥ 'A'.val ∧ c.val ≤ 'Z'.val
  swap
  · have hsame : c.toLower = c := dif_neg hupper
    rwa [hsame] at h
  have hval : (c.val + ('a'.val - 'A'.val)).toNat = ' '.val.toNat := by
    have hshifted : c.toLower = ⟨c.val + ('a'.val - 'A'.val), _⟩ := dif_pos hupper
    rw [hshifted] at h
    exact congrArg (fun c : Char => c.val.toNat) h
  have hlow : 65 ≤ c.val.toNat := UInt32.le_iff_toNat_le.mp hupper.1
  have hhigh : c.val.toNat ≤ 90 := UInt32.le_iff_toNat_le.mp hupper.2
  rw [UInt32.toNat_add] at hval
  have hshift : ('a'.val - 'A'.val).toNat = 32 := by decide
  have hblank : ' '.val.toNat = 32 := by decide
  omega

/-- A blank in a signature is a blank in what it was found in. -/
theorem blank_mem_of_containsNoCase {sub text : Text} (h : Text.ContainsNoCase sub text)
    (hblank : ' ' ∈ sub) : ' ' ∈ text := by
  have hmem : ' ' ∈ text.map Char.toLower := h.subset hblank
  obtain ⟨c, hc, heq⟩ := List.mem_map.mp hmem
  rwa [toLower_eq_blank heq] at hc

/-- The rules see the query as it was sent: a signature above 0.95 that stands in it, in
any case, has the request blocked. -/
theorem signature_in_query_denied (rt : Runtime) (r : Request) (hraw : ' ' ∉ r.query) :
    ∀ s ∈ highRiskSigs, .fin 0.95 < s.2 → Text.ContainsNoCase s.1 r.query →
      (reverseProxy rt r).Denied := by
  intro s hs hscore hin
  obtain ⟨hne, hascii⟩ := highRiskSigs_ascii s hs
  have hsharp : s ∈ sharpSigs := by
    apply mem_sharpSigs hs hscore
    exact fun hblank => hraw (blank_mem_of_containsNoCase hin hblank)
  have hquery : r.query ≠ [] := by
    intro hempty
    rw [hempty] at hin
    exact hne (List.eq_nil_of_infix_nil hin)
  obtain ⟨before, after, htext⟩ := extractHttpFeatures_query hquery
  have hfound := rt.caseData.contains_lower hascii hin before after
  rw [← htext] at hfound
  rw [denied_iff, signature_decides ⟨s, hs, hfound⟩]
  exact Or.inl ⟨s, hsharp, hfound⟩

def queryRequest (query : Text) : Request where
  method := "GET".toList
  path := "/item".toList
  query := query
  headers := [("host".toList, "shop.example".toList)]
  body := []
  queryParams := []
  clientHost := "10.0.0.9".toList

def trustingRuntime : Runtime :=
  ⟨asciiCaseData, fun _ => .fin 0, fun _ => .connectError, .fin 0, fun _ => []⟩

theorem signature_in_query_denied_sample :
    (reverseProxy trustingRuntime (queryRequest "next=JavaScript:x".toList)).Denied :=
  signature_in_query_denied trustingRuntime (queryRequest "next=JavaScript:x".toList)
    (by decide +kernel) ("javascript:".toList, .fin 0.97) (by simp [highRiskSigs])
    (by decide +kernel) (by decide +kernel)

def encodedRequest : Request := queryRequest "id=1%20union%20select%20x".toList

/-- The backend reads `id=1 union select x`, the rules do not. -/
theorem encoded_signature_passed :
    ¬ ∀ s ∈ highRiskSigs, .fin 0.95 < s.2 → Text.ContainsNoCase s.1 encodedRequest.decodedQuery →
      (reverseProxy trustingRuntime encodedRequest).Denied := by
  intro h
  have hpassed : ¬ (reverseProxy trustingRuntime encodedRequest).Denied := by
    rw [denied_iff]
    decide +kernel
  have hmem : ("union select".toList, FloatVal.fin 0.99) ∈ highRiskSigs := by
    unfold highRiskSigs
    exact List.mem_cons_self
  have hscore : FloatVal.fin 0.95 < FloatVal.fin 0.99 := by decide +kernel
  apply hpassed
  exact h _ hmem hscore (by decide +kernel)

end Aegis.Waf
