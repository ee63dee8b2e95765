import Mathlib.Data.List.Forall2
import Uplink.Outgoing

/-! The headers of an attempt. Names are compared without case, and a request sets exactly its own
headers, with their names in small letters, and the type of a structured body if it names none
itself. It is refused if and only if one of its headers is no field. -/

namespace Uplink

namespace Header

/-- Two names are the same but for the case of letters of ASCII. -/
def SameName (a b : String) : Prop :=
  List.Forall₂ (fun c d => c.toLower = d.toLower) a.toList b.toList

theorem lower_eq_lower_iff {a b : String} : lower a = lower b ↔ SameName a b := by
  rw [SameName, lower, lower, ← String.toList_inj, String.toList_map, String.toList_map,
    ← List.forall₂_eq_eq_eq, List.forall₂_map_left_iff, List.forall₂_map_right_iff]

theorem problem?_eq_none_iff {name value : String} :
    problem? name value = none ↔ isName name = true ∧ isValue value = true := by
  unfold problem?
  cases isName name <;> cases isValue value <;> simp

end Header

namespace Request

/-- The headers of a request, with names in small letters. -/
def ownFields (r : Request) : List (String × String) :=
  r.headers.entries.map fun h => (Header.lower h.1, h.2)

/-- A structured body whose request names no type in any case. -/
def LacksType (r : Request) : Prop :=
  (∃ v, r.body = some (.json v)) ∧
    ∀ h ∈ r.headers.entries, ¬Header.SameName h.1 "content-type"

theorem names_iff {headers : List (String × String)} {name : String} :
    names headers name = true ↔ ∃ h ∈ headers, Header.SameName h.1 name := by
  simp only [names, List.any_eq_true, beq_iff_eq, Header.lower_eq_lower_iff]

end Request

namespace Outgoing

variable {order headers : List (String × String)} {r : Request} {url : Url} {text : String}
  {body : Option Request.Body}

/-! ### What is refused -/

theorem headerProblem?_eq_none_iff : headerProblem? headers = none ↔
    ∀ h ∈ headers, Header.isName h.1 = true ∧ Header.isValue h.2 = true := by
  simp only [headerProblem?, List.findSome?_eq_none_iff, Header.problem?_eq_none_iff]

theorem ofRequest_of_fields (hurl : Url.parse r.url = .ok url)
    (hfields : headerProblem? order = none) :
    ofRequest order r = .ok {
      method := r.method
      url := url.withoutCredentials
      credentials := url.credentials?
      headers := callerHeaders order r.body
      body := bodyBytes r.body
      timeout := r.timeout } := by
  simp only [ofRequest, hurl, hfields]

theorem ofRequest_of_problem (hurl : Url.parse r.url = .ok url)
    (hproblem : headerProblem? order = some text) :
    ofRequest order r = .error (.invalidRequest text) := by
  simp only [ofRequest, hurl, hproblem]

/-- With a URL, a request is refused if and only if one of its headers is no field. -/
theorem ofRequest_eq_invalidRequest_iff (hurl : Url.parse r.url = .ok url) :
    (∃ text, ofRequest order r = .error (.invalidRequest text)) ↔
      ∃ h ∈ order, ¬(Header.isName h.1 = true ∧ Header.isValue h.2 = true) := by
  have hfields := @headerProblem?_eq_none_iff order
  cases hproblem : headerProblem? order with
  | none =>
    rw [hproblem] at hfields
    rw [ofRequest_of_fields hurl hproblem]
    constructor
    · rintro ⟨text, h⟩
      cases h
    · rintro ⟨h, hmem, hbad⟩
      exact absurd (hfields.mp rfl h hmem) hbad
  | some text =>
    rw [hproblem] at hfields
    refine iff_of_true ⟨text, ofRequest_of_problem hurl hproblem⟩ ?_
    by_contra hnone
    refine Option.some_ne_none text (hfields.mpr fun h hmem => ?_)
    by_contra hbad
    exact hnone ⟨h, hmem, hbad⟩

/-! ### What is set -/

theorem callerHeaders_of_json {v : Variant} (h : Request.names headers "content-type" = false) :
    callerHeaders headers (some (.json v)) =
      headers.map (fun h => (Header.lower h.1, h.2)) ++ [("content-type", "application/json")] := by
  simp only [callerHeaders, h, Bool.false_eq_true, if_false]

theorem callerHeaders_of_named (h : Request.names headers "content-type" = true) :
    callerHeaders headers body = headers.map fun h => (Header.lower h.1, h.2) := by
  unfold callerHeaders
  split <;> simp only [h, if_true]

theorem callerHeaders_of_ne_json (h : ∀ v, body ≠ some (.json v)) :
    callerHeaders headers body = headers.map fun h => (Header.lower h.1, h.2) := by
  unfold callerHeaders
  split
  · exact absurd rfl (h _)
  · rfl

theorem lower_type : Header.lower "content-type" = "content-type" := by decide +kernel

/-- Headers that name no type set none. -/
theorem filter_map_lower (h : Request.names headers "content-type" = false) :
    (headers.map fun h => (Header.lower h.1, h.2)).filter (·.1 == "content-type") = [] := by
  refine List.filter_eq_nil_iff.mpr fun e he htype => ?_
  obtain ⟨f, hf, rfl⟩ := List.mem_map.mp he
  have hlower : Header.lower f.1 = Header.lower "content-type" :=
    (beq_iff_eq.mp htype).trans lower_type.symm
  rw [Request.names_iff.mpr ⟨f, hf, Header.lower_eq_lower_iff.mp hlower⟩] at h
  cases h

/-- A request with a URL is refused if and only if one of its headers is no field. Otherwise it sets
its own headers, with their names in small letters, and besides them one type of a structured body
if it names none in any case; in whichever order its headers are enumerated, it sets the same. What
the URL says of the user stays apart from them. -/
theorem ofRequest_sets_own_headers (horder : order.Perm r.headers.entries)
    (hurl : Url.parse r.url = .ok url) :
    ((∃ text, ofRequest order r = .error (.invalidRequest text)) ↔
      ∃ h ∈ r.headers.entries, ¬(Header.isName h.1 = true ∧ Header.isValue h.2 = true)) ∧
    ((∀ h ∈ r.headers.entries, Header.isName h.1 = true ∧ Header.isValue h.2 = true) →
      ∃ out, ofRequest order r = .ok out ∧ out.credentials = url.credentials? ∧
        (r.LacksType → out.headers.Perm (r.ownFields ++ [("content-type", "application/json")]) ∧
          out.headers.filter (·.1 == "content-type") = [("content-type", "application/json")]) ∧
        (¬r.LacksType → out.headers.Perm r.ownFields)) := by
  have hmem : ∀ h, h ∈ order ↔ h ∈ r.headers.entries := fun h => horder.mem_iff
  have hown : (order.map fun h => (Header.lower h.1, h.2)).Perm r.ownFields := horder.map _
  constructor
  · rw [ofRequest_eq_invalidRequest_iff hurl]
    simp only [hmem]
  · intro hvalid
    have hfields : headerProblem? order = none :=
      headerProblem?_eq_none_iff.mpr fun h hh => hvalid h ((hmem h).mp hh)
    refine ⟨_, ofRequest_of_fields hurl hfields, rfl, ?_, ?_⟩
    · rintro ⟨⟨v, hv⟩, hnone⟩
      have hunnamed : Request.names order "content-type" = false := by
        rw [← Bool.not_eq_true, Request.names_iff]
        rintro ⟨h, hh, hsame⟩
        exact hnone h ((hmem h).mp hh) hsame
      rw [hv, callerHeaders_of_json hunnamed]
      refine ⟨hown.append_right _, ?_⟩
      rw [List.filter_append, filter_map_lower hunnamed]
      rfl
    · intro htyped
      by_cases hnamed : Request.names order "content-type" = true
      · rw [callerHeaders_of_named hnamed]
        exact hown
      · rw [callerHeaders_of_ne_json]
        · exact hown
        · intro v hv
          refine htyped ⟨⟨v, hv⟩, fun h hh hsame => hnamed ?_⟩
          exact Request.names_iff.mpr ⟨h, (hmem h).mpr hh, hsame⟩

/-- A structured body whose request names the type in capitals. -/
def capitals : Request :=
  ((((Request.ofMethod "POST" "http://host/").withHeader "X-Key" "k").withHeader
    "CONTENT-TYPE" "text/csv").withJson .null)

theorem ofRequest_sets_type_in_capitals : ∃ out,
    ofRequest [("X-Key", "k"), ("CONTENT-TYPE", "text/csv")] capitals = .ok out ∧
      out.headers.Perm [("content-type", "text/csv"), ("x-key", "k")] := by
  have hentries : capitals.headers.entries = [("CONTENT-TYPE", "text/csv"), ("X-Key", "k")] := by
    decide +kernel
  have hurl : Url.parse capitals.url = .ok ⟨"http", some ⟨"", none, .domain "host", none⟩,
    .segments [""], none, none⟩ := by with_unfolding_all rfl
  have horder : [("X-Key", "k"), ("CONTENT-TYPE", "text/csv")].Perm capitals.headers.entries := by
    rw [hentries]
    exact .swap _ _ _
  obtain ⟨out, hout, -, -, htyped⟩ := (ofRequest_sets_own_headers horder hurl).2 (by
    rw [hentries]
    decide +kernel)
  have hlower : Header.lower "CONTENT-TYPE" = "content-type" := by decide +kernel
  have hnamed : ¬capitals.LacksType := fun hlacks =>
    hlacks.2 ("CONTENT-TYPE", "text/csv") (hentries ▸ .head _)
      (Header.lower_eq_lower_iff.mp (hlower.trans lower_type.symm))
  have hown : capitals.ownFields = [("content-type", "text/csv"), ("x-key", "k")] := by
    decide +kernel
  exact ⟨out, hout, hown ▸ htyped hnamed⟩

end Outgoing

end Uplink
