import AdminConsole.Proofs.Resolve.Extent
import AdminConsole.Proofs.Resource.Classification

/-!
The parameters of the requests of a pass. The filters of a pass lie over those of its endpoint, and
the code and the tenant that are asked for lie over both, so a filter that is named like one of them
leads no request astray. A filter that is null takes the one below it away with it.
-/

namespace AdminConsole

open Resolve

namespace Entries

variable {α : Type} {below above : Entries α}

theorem nodup_overlay (h : (names below).Nodup) (above : Entries α) :
    (names (overlay below above)).Nodup := by
  induction above generalizing below with
  | nil => exact h
  | cons entry rest ih => exact ih (nodup_put h entry.1 entry.2)

/-- What lies above hides what has its name below. -/
theorem get?_overlay_of_nodup (h : (names above).Nodup) (name : String) :
    get? name (overlay below above) = (get? name above).or (get? name below) := by
  induction above generalizing below with
  | nil => rfl
  | cons entry rest ih =>
    obtain ⟨key, value⟩ := entry
    obtain ⟨hfresh, hrest⟩ := List.nodup_cons.mp h
    rw [overlay, List.foldl_cons, ← overlay, ih hrest]
    by_cases hkey : key = name
    · subst hkey
      rw [get?_eq_none_iff.mpr hfresh, get?_put_self]
      simp [get?]
    · rw [get?_put_of_ne (Ne.symm hkey)]
      simp [get?, hkey]

end Entries

/-- The parameters lead to one code and one tenant, and beside these they are the filters that are
not null, as text. -/
structure Directed (filter? : String → Option Json) (code tenant : String)
    (params : Entries String) : Prop where
  once : (Entries.names params).Nodup
  code : Entries.get? "pcode" params = some code
  tenant : Entries.get? "tenantCode" params = some tenant
  others : ∀ name, name ≠ "pcode" → name ≠ "tenantCode" →
    Entries.get? name params = ((filter? name).filter fun value => !value.isNull).map Json.plain

namespace Query

theorem filters_eq (params : Entries Json) : filters params =
    (params.filter fun entry => !entry.2.isNull).map fun entry => (entry.1, entry.2.plain) := by
  induction params with
  | nil => rfl
  | cons entry rest ih =>
    obtain ⟨name, value⟩ := entry
    rw [filters, List.filterMap_cons, ← filters, ih]
    cases hnull : value.isNull <;> simp [hnull]

theorem get?_filters {params : Entries Json} (h : (Entries.names params).Nodup) (name : String) :
    Entries.get? name (filters params) =
      ((Entries.get? name params).filter fun value => !value.isNull).map Json.plain := by
  rw [filters_eq, Entries.get?_map (fun _ value => Json.plain value),
    Entries.get?_filter_value (fun value : Json => !value.isNull) name h]

theorem nodup_filters {params : Entries Json} (h : (Entries.names params).Nodup) :
    (Entries.names (filters params)).Nodup := by
  rw [filters_eq, Entries.names, List.map_map]
  exact h.sublist (List.filter_sublist.map Prod.fst)

theorem directed_toParams (q : Query) (h : (Entries.names q.params).Nodup) :
    Directed (fun name => Entries.get? name q.params) q.parent q.tenant q.toParams where
  once := Entries.nodup_put (Entries.nodup_put (nodup_filters h) _ _) _ _
  code := q.parent_toParams
  tenant := Entries.get?_put_self _ _ _
  others := by
    intro name hcode htenant
    rw [toParams, Entries.get?_put_of_ne htenant, Entries.get?_put_of_ne hcode, get?_filters h]

end Query

namespace Console

variable {c : Console}

theorem requests_send (path : String) (params : Entries String) (h : c.Sends) :
    ∃ r, (c.send path params).2.requests = c.requests ++ [r] ∧ r.params = params := by
  obtain ⟨found, hfound, hfits⟩ := h
  rw [send_eq path params hfound hfits, requests_inspect, requests_transmit]
  exact ⟨_, rfl, rfl⟩

end Console

namespace Endpoint

variable {e : Endpoint} {q : Query} {c c' : Console} {made : List Asked}

/-- The filter with a name: that of the query, or else that of the endpoint. -/
def filter? (e : Endpoint) (q : Query) (name : String) : Option Json :=
  (Entries.get? name q.params).or (Entries.get? name e.params)

theorem directed_paramsOf (he : (Entries.names e.params).Nodup)
    (hq : (Entries.names q.params).Nodup) :
    Directed (e.filter? q) q.parent q.tenant (e.paramsOf q) := by
  have hfilter : e.filter? q = fun name =>
      Entries.get? name (Entries.overlay e.params q.params) :=
    funext fun name => (Entries.get?_overlay_of_nodup hq name).symm
  rw [hfilter]
  exact Query.directed_toParams { q with params := Entries.overlay e.params q.params }
    (Entries.nodup_overlay he q.params)

theorem requests_fetch (e : Endpoint) (q : Query) (h : c.Sends) :
    ∃ r, (e.fetch q c).2.requests = c.requests ++ [r] ∧ r.params = e.paramsOf q := by
  rw [(fetch_eq e q c).2]
  exact Console.requests_send e.path (e.paramsOf q) h

/-- Each request of a pass is sent with the parameters of the code that it asks for. -/
theorem requests_answers (h : c.Sends) (hanswers : Answers (e.source q) c made c') :
    ∃ sent, c'.requests = c.requests ++ sent ∧
      List.Forall₂ (fun a r => r.params = e.paramsOf { q with parent := a.code }) made sent := by
  induction hanswers with
  | nil => exact ⟨[], (List.append_nil _).symm, .nil⟩
  | @snoc made c' code hanswers ih =>
    obtain ⟨sent, hsent, hparams⟩ := ih
    obtain ⟨r, hr, hrparams⟩ :=
      requests_fetch e { q with parent := code } (sends_answers h hanswers)
    refine ⟨sent ++ [r], ?_, List.rel_append hparams (.cons hrparams .nil)⟩
    rw [← List.append_assoc, ← hsent]
    exact hr

/-- A pass whose first request is blocked makes no other one, and nothing is sent. -/
theorem requests_blocked {log : List Asked} {found : Bool} (h : ¬ c.Sends)
    (htraced : Traced (e.source q) q.parent c c' log found) : c'.requests = c.requests := by
  obtain ⟨fault, hblocked⟩ := c.sends_or_blocked.resolve_left h
  obtain ⟨outcome, rest, rfl, hspoiled⟩ := htraced.first
  have hfetch := fetch_blocked e q hblocked
  have houtcome : outcome = .error fault := htraced.answers.outcome_first.trans hfetch
  obtain rfl := hspoiled ⟨fault, houtcome, (Escapes.blocked (e := e) (q := q) hblocked).ne_fetch⟩
  have hsingle := Answers.single (e.source q) q.parent c
  have hlast : c' = (e.fetch q c).2 := by
    rw [houtcome] at htraced
    exact htraced.answers.unique (hfetch ▸ hsingle)
  rw [hlast, (fetch_eq e q c).2, Console.send_blocked e.path (e.paramsOf q) hblocked]

/-- Every request of a pass, however often it is tried again, asks for one code of one tenant: the
code that the pass begins with, until its records are there, and after that a code of a record. What
goes with it are the filters of the query and of the endpoint that are not null, and no filter stands
in for the code or the tenant. A console that cannot send sends nothing. -/
theorem load_directed {e : Endpoint} {q : Query} (he : (Entries.names e.params).Nodup)
    (hq : (Entries.names q.params).Nodup) (t : Tuning) (depth : Nat) (manner : Manner Console)
    (c : Console) :
    let pass := load t (e.source q) depth q.parent c manner
    ∃ first again sent, pass.2.log = first ++ again ∧ first ≠ [] ∧
      (∀ a ∈ first, a.code = q.parent) ∧
      (∀ a ∈ again, a.code ≠ "" ∧ Brings a.code pass.2.log) ∧
      pass.2.source.requests = c.requests ++ sent ∧
      (c.Sends → List.Forall₂ (fun a r => Directed (e.filter? q) a.code q.tenant r.params)
        pass.2.log sent) ∧
      (¬ c.Sends → sent = []) := by
  intro pass
  have htraced : Traced (e.source q) q.parent c pass.2.source pass.2.log pass.1.isOk :=
    load_traced t (e.source q) depth q.parent c manner
  obtain ⟨first, again, hlog, hne, hfirst, hagain⟩ :=
    load_asked t (e.source q) depth q.parent c manner
  by_cases hsends : c.Sends
  · obtain ⟨sent, hsent, hparams⟩ := requests_answers hsends htraced.answers
    refine ⟨first, again, sent, hlog, hne, hfirst, hagain, hsent, fun _ => ?_, fun h => ?_⟩
    · refine hparams.imp fun a r hr => ?_
      rw [hr]
      exact directed_paramsOf (q := { q with parent := a.code }) he hq
    · exact absurd hsends h
  · refine ⟨first, again, [], hlog, hne, hfirst, hagain, ?_, fun h => ?_, fun _ => rfl⟩
    · rw [List.append_nil]
      exact requests_blocked hsends htraced
    · exact absurd h hsends

/-! ### Filters that are named like a code and a tenant -/

/-- A console whose backend lists one root at the second attempt. -/
def flaky : Console where
  session := ⟨.memory [], none, .whole 0, true, Fault.defaultLoginUrl⟩
  backend := ⟨[("/menus/search#0", [.response 503 (.bytes []),
      .response 200 (.json (.list [record "R"]))]),
    ("/menus/search#R", [.response 200 (.json (.list []))])]⟩
  basePath := []
  wrapped := true
  requests := []

def misled : Endpoint := .ofNames defaultResource defaultName
  [("pcode", .text "X"), ("status", .number (.whole 1)), ("gone", .text "x"), ("back", .null)]

def misleading : Query :=
  ⟨"0", "T", [("tenantCode", .text "U"), ("gone", .null), ("back", .bool true)]⟩

/-- The parameters of the requests that ask for a code. -/
def unmoved (code : String) : Entries String :=
  [("pcode", code), ("status", "1"), ("back", "True"), ("tenantCode", "T")]

theorem load_directed_misleading :
    (Entries.names misled.params).Nodup ∧ (Entries.names misleading.params).Nodup ∧ flaky.Sends ∧
    let pass := load thrice (misled.source misleading) 2 "0" flaky (.onSchedule none firstCome)
    pass.2.log.map Asked.code = ["0", "0", "R"] ∧
    List.Forall₂ (fun a r => Directed (misled.filter? misleading) a.code "T" r.params)
      pass.2.log pass.2.source.requests ∧
    pass.2.source.requests.map Request.params = [unmoved "0", unmoved "0", unmoved "R"] := by
  have hmisled : (Entries.names misled.params).Nodup := by decide
  have hmisleading : (Entries.names misleading.params).Nodup := by decide
  have hsends : flaky.Sends := ⟨none, rfl, nofun⟩
  refine ⟨hmisled, hmisleading, hsends, by decide +kernel, ?_, by decide +kernel⟩
  obtain ⟨_, _, sent, _, _, _, _, hsent, hdirected, _⟩ :=
    load_directed hmisled hmisleading thrice 2 (.onSchedule none firstCome) flaky
  obtain rfl : _ = sent := hsent
  exact hdirected hsends

end Endpoint

end AdminConsole
