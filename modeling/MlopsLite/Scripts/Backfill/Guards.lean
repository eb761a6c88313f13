import MlopsLite.Scripts.Backfill.Steps

/-!
# Guards — a step takes its offer

Whatever an object holds, its step fills the cell that the item offers where it is empty
and what it needs is there, and else it changes nothing. A step that raises has found no
cell to fill.
-/

namespace MlopsLite.Scripts.Backfill

open Filling (Met)

variable {ν τ : Type} {d : Driver ν τ} {db : Database ν τ}

/-- What a step may come to: its offer is taken, or its cell is filled already, or what the
offer needs is missing. -/
structure Guards (db : Database ν τ) (x : Option (Done × Database ν τ))
    (offer : Option (Offer ν τ)) : Prop where
  inserted : ∀ db', x = some (.inserted, db') → ∃ o ∈ offer, db.cells o.cell = none ∧
    Met Content.live db.cells o ∧ db'.cells = Function.update db.cells o.cell (some o.value)
  skipped : ∀ db', x = some (.skipped, db') →
    db' = db ∧ ∀ o ∈ offer, Met Content.live db.cells o → db.cells o.cell ≠ none
  raised : x = none → ∀ o ∈ offer, Met Content.live db.cells o → db.cells o.cell ≠ none

theorem Guards.of_none {offer : Option (Offer ν τ)} (h : offer = none) :
    Guards db none offer where
  inserted _ h := by cases h
  skipped _ h := by cases h
  raised _ o ho := by rw [h] at ho; cases ho

/-- The cell is filled already. -/
theorem Guards.of_skipped {offer : Option (Offer ν τ)}
    (h : ∀ o ∈ offer, Met Content.live db.cells o → db.cells o.cell ≠ none) :
    Guards db (some (.skipped, db)) offer where
  inserted _ h := by cases h
  skipped _ heq := by cases heq; exact ⟨rfl, h⟩
  raised h := by cases h

theorem Guards.of_inserted {db' : Database ν τ} {o : Offer ν τ} (hempty : db.cells o.cell = none)
    (hmet : Met Content.live db.cells o)
    (hcells : db'.cells = Function.update db.cells o.cell (some o.value)) :
    Guards db (some (.inserted, db')) (some o) where
  inserted _ heq := by cases heq; exact ⟨o, rfl, hempty, hmet, hcells⟩
  skipped _ heq := by cases heq
  raised h := by cases h

theorem text_of_param {v : Json ν} {id : String} (h : d.param v = some (some id)) :
    d.text v = some id := by
  cases v with
  | str s =>
    rw [Driver.param] at h
    rw [Driver.text]
    split_ifs at h with hchars
    rw [if_pos hchars]
    exact Option.some.inj h
  | _ => cases h

theorem text_of_param_none {v : Json ν} (h : d.param v = some none) : d.text v = none := by
  cases v with
  | null => rfl
  | str s =>
    rw [Driver.param] at h
    split_ifs at h
    cases h
  | _ => cases h

section

variable {ρ : Type} {t : Table ρ} {cell : String → Cell} {content : ρ → Content ν τ} {key : Json ν}
  {write : ρ → Option (Database ν τ)} {put : String → ρ → Database ν τ}

/-- A row is looked for, and is written where there is none. -/
theorem guards_row (row : Option ρ) (hcell : ∀ id, db.cells (cell id) = (t id).map content)
    (hnone : d.text key = none → ∀ row, write row = none)
    (hsome : ∀ id row, d.text key = some id → t id = none → write row = some (put id row))
    (hput : ∀ id row, (put id row).cells =
      Function.update db.cells (cell id) (some (content row))) :
    Guards db
      ((find d t key).bind fun known =>
        if known.isSome then some (.skipped, db)
        else row.bind fun row => (write row).bind fun db' => some (.inserted, db'))
      (rowOffer d cell content key row) := by
  cases hparam : d.param key with
  | none =>
    have hfind : find d t key = none := by rw [find, hparam]; rfl
    rw [hfind]
    exact .of_none (by rw [rowOffer, hparam]; rfl)
  | some id? =>
    cases id? with
    | none =>
      have hfind : find d t key = some none := by rw [find, hparam]; rfl
      have hwrite := hnone (text_of_param_none hparam)
      have hraised : (row.bind fun row => (write row).bind fun db' =>
          some (Done.inserted, db')) = none := by
        cases row with
        | none => rfl
        | some row => rw [Option.bind_some, hwrite]; rfl
      rw [hfind, Option.bind_some, hraised]
      exact .of_none (by rw [rowOffer, hparam]; rfl)
    | some id =>
      have hfind : find d t key = some (t id) := by rw [find, hparam]; rfl
      have hoffer : rowOffer d cell content key row =
          row.map fun row => ⟨cell id, content row, []⟩ := by
        rw [rowOffer, hparam]
        cases row <;> rfl
      rw [hfind, Option.bind_some, hoffer]
      cases hid : t id with
      | some old =>
        refine .of_skipped fun o ho _ => ?_
        obtain ⟨row, -, rfl⟩ := Option.map_eq_some_iff.mp ho
        show db.cells (cell id) ≠ none
        rw [hcell, hid]
        exact Option.some_ne_none _
      | none =>
        cases row with
        | none => exact .of_none rfl
        | some row =>
          rw [Option.isSome_none, if_neg (by decide), Option.bind_some,
            hsome id row (text_of_param hparam) hid]
          refine .of_inserted ?_ ?_ (hput id row)
          · show db.cells (cell id) = none
            rw [hcell, hid]
            rfl
          · intro n hn
            cases hn

end

section

variable [Zero ν] [DecidableEq ν]

theorem guards_prediction (key : String) (body : Option (Json ν)) :
    Guards db (predictionStep d key body db) ((Item.prediction key body).offer d) := by
  cases body with
  | none => exact .of_none rfl
  | some rec =>
    cases hpid : item rec "prediction_id" with
    | none =>
      have hstep : predictionStep d key (some rec) db = none := by simp [predictionStep, hpid]
      rw [hstep]
      exact .of_none (by simp [Item.offer, hpid])
    | some pid =>
      have hstep : predictionStep d key (some rec) db =
          (find d db.predictions pid).bind fun known =>
            if known.isSome then some (.skipped, db)
            else (predictionRow d key rec).bind fun row =>
              (logPrediction d db pid row).bind fun db' => some (.inserted, db') := by
        simp [predictionStep, hpid, predictionExists, Option.bind_map]
      have hoffer : (Item.prediction key (some rec)).offer d =
          rowOffer d .prediction .prediction pid (predictionRow d key rec) := by
        simp [Item.offer, hpid]
      rw [hstep, hoffer]
      refine guards_row _ (fun _ => rfl) ?_ ?_ fun id row => cells_putPrediction id row
      · intro hnone row
        simp [logPrediction, insert, hnone]
      · intro id row htext hid
        simp [logPrediction, insert, htext, hid]

theorem guards_capture (key : String) (body : Option (Json ν)) :
    Guards db (captureStep d key body db) ((Item.capture key body).offer d) := by
  cases body with
  | none => exact .of_none rfl
  | some rec =>
    cases hpid : item rec "prediction_id" with
    | none =>
      have hstep : captureStep d key (some rec) db = none := by simp [captureStep, hpid]
      rw [hstep]
      exact .of_none (by simp [Item.offer, hpid])
    | some pid =>
      have hstep : captureStep d key (some rec) db =
          (find d db.captures pid).bind fun known =>
            if known.isSome then some (.skipped, db)
            else (captureRow d key rec).bind fun row =>
              (captureInput d db pid row).bind fun db' => some (.inserted, db') := by
        simp [captureStep, hpid, captureExists, Option.bind_map]
      have hoffer : (Item.capture key (some rec)).offer d =
          rowOffer d .capture .capture pid (captureRow d key rec) := by
        simp [Item.offer, hpid]
      rw [hstep, hoffer]
      refine guards_row _ (fun _ => rfl) ?_ ?_ fun id row => cells_putCapture id row
      · intro hnone row
        simp [captureInput, insert, hnone]
      · intro id row htext hid
        simp [captureInput, insert, htext, hid]

theorem guards_suggestion (body : Option (Json ν)) :
    Guards db (suggestionStep d body db) ((Item.suggestion body).offer d) := by
  cases body with
  | none => exact .of_none rfl
  | some rec =>
    cases hid : item rec "id" with
    | none =>
      have hstep : suggestionStep d (some rec) db = none := by simp [suggestionStep, hid]
      rw [hstep]
      exact .of_none (by simp [Item.offer, hid])
    | some sid =>
      have hstep : suggestionStep d (some rec) db =
          (find d db.suggestions sid).bind fun known =>
            if known.isSome then some (.skipped, db)
            else (suggestionRow d rec).bind fun row =>
              (createSuggestion d db sid row).bind fun db' => some (.inserted, db') := by
        simp [suggestionStep, hid, getSuggestion]
      have hoffer : (Item.suggestion (some rec)).offer d =
          rowOffer d .suggestion .suggestion sid (suggestionRow d rec) := by
        simp [Item.offer, hid]
      rw [hstep, hoffer]
      refine guards_row _ (fun _ => rfl) ?_ ?_ fun id row => cells_putSuggestion id row
      · intro hnone row
        simp [createSuggestion, insert, hnone]
      · intro id row htext hid
        simp [createSuggestion, insert, htext, hid]

/-- The values of a label's row. -/
def labelArgs (d : Driver ν τ) (rec : Json ν) : Option (String × Json ν × τ) := do
  let id ← (item rec "prediction_id").bind d.text
  let label ← (item rec "label").bind d.jsonbOf
  let submittedAt ← (d.dt (get rec "ts")).join
  return (id, label, submittedAt)

omit [Zero ν] [DecidableEq ν] in
theorem labelStep_eq (rec : Json ν) : labelStep d (some rec) db =
    (labelArgs d rec).bind fun a =>
      if (db.labels a.1).isSome then some (.skipped, db)
      else if (db.predictions a.1).isSome then
        some (.inserted, { db with labels := db.labels.put a.1 ⟨a.2.1, a.2.2⟩ })
      else none := by
  cases hpid : item rec "prediction_id" with
  | none => simp [labelStep, labelArgs, hpid]
  | some pid =>
    cases hlabel : item rec "label" with
    | none => cases htext : d.text pid <;> simp [labelStep, labelArgs, hpid, hlabel, htext]
    | some label =>
      cases htext : d.text pid with
      | none =>
        cases hts : d.dt (get rec "ts") <;>
          simp [labelStep, labelArgs, attachLabel, hpid, hlabel, htext, hts]
      | some id =>
        cases hjson : d.jsonbOf label with
        | none =>
          cases hts : d.dt (get rec "ts") <;>
            simp [labelStep, labelArgs, attachLabel, hpid, hlabel, htext, hjson, hts]
        | some value =>
          rcases hts : d.dt (get rec "ts") with - | - | submittedAt
          · simp [labelStep, labelArgs, hpid, hlabel, htext, hjson, hts]
          · simp [labelStep, labelArgs, attachLabel, hpid, hlabel, htext, hjson, hts]
          · simp only [labelStep, labelArgs, attachLabel, hpid, hlabel, htext, hjson, hts,
              Option.bind_eq_bind, Option.bind_some, Option.join_some, Option.pure_def]
            split_ifs <;> rfl

theorem guards_label (body : Option (Json ν)) :
    Guards db (labelStep d body db) ((Item.label body).offer d) := by
  cases body with
  | none => exact .of_none rfl
  | some rec =>
    have hoffer : (Item.label (some rec)).offer d = (labelArgs d rec).map fun a =>
        ⟨.label a.1, .label ⟨a.2.1, a.2.2⟩, [.prediction a.1]⟩ := by
      simp [Item.offer, labelArgs, Option.map_bind]
    rw [labelStep_eq, hoffer]
    cases labelArgs d rec with
    | none => exact .of_none rfl
    | some a =>
      obtain ⟨id, value, submittedAt⟩ := a
      rw [Option.bind_some, Option.map_some]
      cases hid : db.labels id with
      | some old =>
        rw [if_pos (by rw [Option.isSome_some])]
        refine .of_skipped fun o ho _ => ?_
        cases ho
        show db.cells (.label id) ≠ none
        simp [Database.cells, hid]
      | none =>
        rw [if_neg (by simp)]
        cases hprediction : db.predictions id with
        | some row =>
          rw [if_pos (by rw [Option.isSome_some])]
          refine .of_inserted ?_ ?_ (cells_putLabel id _)
          · simp [Database.cells, hid]
          · intro n hn
            obtain rfl := List.mem_singleton.mp hn
            exact ⟨.prediction row, by simp [Database.cells, hprediction], trivial⟩
        | none =>
          rw [if_neg (by simp)]
          refine ⟨fun _ h => (by cases h), fun _ h => (by cases h), fun _ o ho hmet => ?_⟩
          cases ho
          obtain ⟨v, hv, -⟩ := hmet (.prediction id) (List.mem_singleton_self _)
          simp [Database.cells, hprediction] at hv

/-- The values of a policy's row. -/
def policyArgs (d : Driver ν τ) (doc : Json ν) : Option (Json ν × τ × String) := do
  let document ← d.jsonbOf doc
  let updatedAt ← (d.dt (get doc "updated_at")).join
  let updatedBy ← d.text ((item doc "updated_by").getD (.str "operator"))
  return (document, updatedAt, updatedBy)

omit [Zero ν] [DecidableEq ν] in
theorem putPolicy_of_none {model : Json ν} (h : d.text model = none) (doc updatedBy : Json ν)
    (updatedAt : Option τ) : putPolicy d db model doc updatedAt updatedBy = none := by
  simp [putPolicy, h]

/-- The row that a policy gets: what is filled later outlives it. -/
def policyRow (old : Option (Policy ν τ)) (a : Json ν × τ × String) : Policy ν τ :=
  match old with
  | some old => { old with document := a.1, updatedAt := a.2.1, updatedBy := a.2.2 }
  | none => ⟨a.1, a.2.1, a.2.2, none, none⟩

omit [Zero ν] [DecidableEq ν] in
theorem putPolicy_of_text {model : Json ν} {id : String} (h : d.text model = some id)
    (doc : Json ν) :
    ((d.dt (get doc "updated_at")).bind fun updatedAt =>
      (putPolicy d db model doc updatedAt ((item doc "updated_by").getD (.str "operator"))).bind
        fun db' => some (Done.inserted, db')) =
      (policyArgs d doc).map fun a => (.inserted,
        { db with policies := db.policies.put id (policyRow (db.policies id) a) }) := by
  cases hjson : d.jsonbOf doc with
  | none => cases hts : d.dt (get doc "updated_at") <;> simp [putPolicy, policyArgs, h, hjson]
  | some document =>
    rcases hts : d.dt (get doc "updated_at") with - | - | updatedAt
    · simp [policyArgs, hts]
    · simp [putPolicy, policyArgs, h, hjson, hts]
    · cases hby : d.text ((item doc "updated_by").getD (.str "operator")) with
      | none => simp [putPolicy, policyArgs, h, hjson, hts, hby]
      | some updatedBy =>
        cases hid : db.policies id <;>
          simp [putPolicy, policyArgs, policyRow, h, hid, hjson, hts, hby]

/-- What an item offers, and could take, is not dead where it is. -/
def Alive (db : Database ν τ) (offer : Option (Offer ν τ)) : Prop :=
  ∀ o ∈ offer, Met Content.live db.cells o → ∀ v, db.cells o.cell = some v → v.live

theorem guards_policy (key : String) (body : Option (Json ν))
    (halive : Alive db ((Item.policy key body).offer d)) :
    Guards db (policyStep d key body db) ((Item.policy key body).offer d) := by
  cases body with
  | none => exact .of_none rfl
  | some doc =>
    cases hmodel : policyModel key doc with
    | none =>
      have hstep : policyStep d key (some doc) db = none := by simp [policyStep, hmodel]
      rw [hstep]
      exact .of_none (by simp [Item.offer, hmodel])
    | some model =>
      have hoffer : (Item.policy key (some doc)).offer d = (d.param model).join.bind fun id =>
          (policyArgs d doc).map fun a => ⟨.policy id, .policy a.1 a.2.1 a.2.2, []⟩ := by
        simp [Item.offer, hmodel, policyArgs, Option.map_bind]
      have hstep : policyStep d key (some doc) db = (getPolicy d db model).bind fun known =>
          if known.isSome then some (.skipped, db)
          else (d.dt (get doc "updated_at")).bind fun updatedAt =>
            (putPolicy d db model doc updatedAt ((item doc "updated_by").getD (.str "operator"))).bind
              fun db' => some (.inserted, db') := by
        simp [policyStep, hmodel]
      rw [hoffer] at halive ⊢
      rw [hstep]
      cases hparam : d.param model with
      | none =>
        have hget : getPolicy d db model = none := by simp [getPolicy, find, hparam]
        rw [hget]
        exact .of_none rfl
      | some id? =>
        cases id? with
        | none =>
          have hget : getPolicy d db model = some none := by simp [getPolicy, find, hparam]
          rw [hget, Option.bind_some, if_neg (by simp)]
          simp only [putPolicy_of_none (text_of_param_none hparam), Option.bind_none,
            Option.bind_fun_none]
          exact .of_none rfl
        | some id =>
          rw [hparam] at halive
          simp only [Option.join_some, Option.bind_some] at halive ⊢
          have hget : getPolicy d db model =
              some (((db.policies id).map Policy.document).filter notNull) := by
            simp [getPolicy, find, hparam]
          rw [hget, Option.bind_some, putPolicy_of_text (text_of_param hparam)]
          cases hid : db.policies id with
          | none =>
            rw [if_neg (by simp)]
            cases hargs : policyArgs d doc with
            | none => exact .of_none rfl
            | some a =>
              refine .of_inserted ?_ (fun n hn => by cases hn) (cells_putPolicy hid _ _ _)
              simp [Database.cells, hid]
          | some p =>
            cases hnull : notNull p.document with
            | true =>
              rw [if_pos (by simp [Option.filter, hnull])]
              refine .of_skipped fun o ho _ => ?_
              obtain ⟨a, -, rfl⟩ := Option.map_eq_some_iff.mp ho
              simp [Database.cells, hid]
            | false =>
              rw [if_neg (by simp [Option.filter, hnull])]
              cases hargs : policyArgs d doc with
              | none => exact .of_none rfl
              | some a =>
                -- a null document would be written over
                rw [hargs] at halive
                have hlive := halive _ rfl (fun n hn => by cases hn)
                  (.policy p.document p.updatedAt p.updatedBy) (by simp [Database.cells, hid])
                rw [Content.live, hnull] at hlive
                cases hlive

section

variable {column : Policy ν τ → Option (Json ν)} {set : Policy ν τ → Json ν → Policy ν τ}
  {cell : String → Cell} {model : String}

omit [Zero ν] [DecidableEq ν] in
theorem guards_column (body : Option (Json ν))
    (hcell : ∀ id, db.cells (cell id) =
      (db.policies id).bind fun p => (column p).map .column)
    (hput : ∀ p value, db.policies model = some p →
      ({ db with policies := db.policies.put model (set p value) } : Database ν τ).cells =
        Function.update db.cells (cell model) (some (.column value)))
    (halive : Alive db (columnOffer d cell model body)) :
    Guards db (columnStep d (getColumn d · column) (setColumn d · set) model body db)
      (columnOffer d cell model body) := by
  cases body with
  | none => exact .of_none (by simp [columnOffer])
  | some value =>
    cases hchars : d.chars model with
    | false =>
      have hparam : d.param (.str model) = none := by simp [Driver.param, hchars]
      have hstep : columnStep d (getColumn d · column) (setColumn d · set) model (some value) db =
          none := by simp [columnStep, getPolicy, find, hparam]
      rw [hstep]
      exact .of_none (by simp [columnOffer, hparam])
    | true =>
      have hparam : d.param (.str model) = some (some model) := by simp [Driver.param, hchars]
      have hoffer : columnOffer d cell model (some value) =
          (d.jsonbOf value).map fun v => ⟨cell model, .column v, [.policy model]⟩ := by
        cases hjson : d.jsonbOf value <;> simp [columnOffer, hparam, hjson]
      have hpolicy : getPolicy d db (.str model) =
          some (((db.policies model).map Policy.document).filter notNull) := by
        simp [getPolicy, find, hparam]
      have hknown : getColumn d db column model =
          some (((db.policies model).bind column).filter notNull) := by
        simp [getColumn, find, hparam]
      have hstep : columnStep d (getColumn d · column) (setColumn d · set) model (some value) db =
          if (((db.policies model).map Policy.document).filter notNull).isNone then
            some (.skipped, db)
          else if (((db.policies model).bind column).filter notNull).isSome then
            some (.skipped, db)
          else (setColumn d db set model value).bind fun db' => some (.inserted, db') := by
        simp only [columnStep, Option.bind_eq_bind, Option.bind_some, hpolicy, hknown]
      rw [hoffer] at halive ⊢
      rw [hstep]
      -- an object without a policy that is there is skipped
      have hmet : ∀ o ∈ (d.jsonbOf value).map fun v =>
          (⟨cell model, .column v, [.policy model]⟩ : Offer ν τ), Met Content.live db.cells o →
            ∃ p, db.policies model = some p ∧ notNull p.document = true := by
        intro o ho hmet
        obtain ⟨v, -, rfl⟩ := Option.map_eq_some_iff.mp ho
        obtain ⟨w, hw, hlive⟩ := hmet (.policy model) (List.mem_singleton_self _)
        obtain ⟨p, hp, rfl⟩ := Option.map_eq_some_iff.mp hw
        exact ⟨p, hp, hlive⟩
      cases hp : db.policies model with
      | none =>
        rw [if_pos (by simp)]
        refine .of_skipped fun o ho h => ?_
        obtain ⟨p, hp', -⟩ := hmet o ho h
        rw [hp] at hp'
        cases hp'
      | some p =>
        cases hdoc : notNull p.document with
        | false =>
          rw [if_pos (by simp [Option.filter, hdoc])]
          refine .of_skipped fun o ho h => ?_
          obtain ⟨p', hp', hdoc'⟩ := hmet o ho h
          rw [hp] at hp'
          cases hp'
          rw [hdoc] at hdoc'
          cases hdoc'
        | true =>
          rw [if_neg (by simp [Option.filter, hdoc]), Option.bind_some]
          have hthere : db.cells (cell model) = (column p).map .column := by
            rw [hcell, hp, Option.bind_some]
          have hset : setColumn d db set model value = (d.jsonbOf value).map fun v =>
              { db with policies := db.policies.put model (set p v) } := by
            cases hjson : d.jsonbOf value <;> simp [setColumn, find, hparam, hp, hjson]
          have hneeds : ∀ v, Met Content.live db.cells
              (⟨cell model, .column v, [.policy model]⟩ : Offer ν τ) := by
            intro v n hn
            obtain rfl := List.mem_singleton.mp hn
            exact ⟨.policy p.document p.updatedAt p.updatedBy, by simp [Database.cells, hp], hdoc⟩
          cases hcolumn : column p with
          | none =>
            rw [if_neg (by simp), hset]
            cases hjson : d.jsonbOf value with
            | none => exact .of_none rfl
            | some v =>
              refine .of_inserted ?_ (hneeds v) (hput p v hp)
              rw [hthere, hcolumn]
              rfl
          | some w =>
            cases hw : notNull w with
            | true =>
              rw [if_pos (by simp [Option.filter, hw])]
              refine .of_skipped fun o ho _ => ?_
              obtain ⟨v, -, rfl⟩ := Option.map_eq_some_iff.mp ho
              rw [hthere, hcolumn]
              exact Option.some_ne_none _
            | false =>
              rw [if_neg (by simp [Option.filter, hw]), hset]
              cases hjson : d.jsonbOf value with
              | none => exact .of_none rfl
              | some v =>
                -- a null column would be written over
                rw [hjson] at halive
                have hlive := halive _ rfl (hneeds v) (.column w) (by rw [hthere, hcolumn]; rfl)
                rw [Content.live, hw] at hlive
                cases hlive

end

theorem guards_job (rec : Record ν) :
    Guards db (jobStep d rec db) ((Item.job rec).offer d) := by
  cases hsplit : jobSplit d rec with
  | none =>
    have hstep : jobStep d rec db = none := by simp [jobStep, importJob, hsplit]
    rw [hstep]
    exact .of_none (by simp [Item.offer, hsplit])
  | some split =>
    obtain ⟨jobId, row⟩ := split
    cases htext : d.text jobId with
    | none =>
      have hstep : jobStep d rec db = none := by simp [jobStep, importJob, hsplit, insert, htext]
      rw [hstep]
      exact .of_none (by simp [Item.offer, hsplit, htext])
    | some id =>
      have hoffer : (Item.job rec).offer d = some ⟨.job id, .job row, []⟩ := by
        simp [Item.offer, hsplit, htext]
      rw [hoffer]
      cases hid : db.jobs id with
      | some old =>
        have hstep : jobStep d rec db = some (.skipped, db) := by
          simp [jobStep, importJob, hsplit, insert, htext, hid]
        rw [hstep]
        refine .of_skipped fun o ho _ => ?_
        cases ho
        simp [Database.cells, hid]
      | none =>
        have hstep : jobStep d rec db =
            some (.inserted, { db with jobs := db.jobs.put id row }) := by
          simp [jobStep, importJob, hsplit, insert, htext, hid]
        rw [hstep]
        refine .of_inserted ?_ (fun n hn => by cases hn) (cells_putJob id row)
        simp [Database.cells, hid]

theorem guards (i : Item ν) (halive : Alive db (i.offer d)) :
    Guards db (i.step d db) (i.offer d) := by
  cases i with
  | prediction key body => exact guards_prediction key body
  | label body => exact guards_label body
  | capture key body => exact guards_capture key body
  | policy key body => exact guards_policy key body halive
  | pending key body =>
    exact guards_column body (fun _ => rfl) (fun _ value hp => cells_putPending hp value) halive
  | status key body =>
    exact guards_column body (fun _ => rfl) (fun _ value hp => cells_putStatus hp value) halive
  | suggestion body => exact guards_suggestion body
  | job rec => exact guards_job rec

end

end MlopsLite.Scripts.Backfill
