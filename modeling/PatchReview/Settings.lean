import PatchReview.Record
import PatchReview.Path

/-!
# Settings

Which model is asked, and how a review is bounded: time, rounds, tool calls, which files count, and how risks are
anchored, merged, weighed and confirmed. Environment variables override some of them, without the bounds.
-/

namespace PatchReview

open Fields Json Number Path Record

structure ModelSettings where
  provider : String := "deepseek"
  model : String := "deepseek-chat"
  apiKey : Option String := none
  baseUrl : Option String := none
  temperature : Float := 0.7

structure ReviewSettings where
  root : Path
  assets : Path := ofString "assets_cache"
  timeout : Int := 600
  assetKey : Option String := none
  maxRequests : Int := 5
  maxRounds : Int := 20
  maxToolCalls : Int := 6
  filterPaths : Bool := true
  includeGlobs : Strings := []
  excludeGlobs : Strings := []
  anchorWindow : Int := 5
  dropUnanchored : Bool := true
  unanchoredConfidence : Float := 0.2
  maxItems : Int := 30
  maxItemsPerFile : Int := 6
  maxItemsPerKind : List (String × Int) := []
  kindWeights : List (String × Float) := []
  severityWeights : List (String × Float) := []
  mergeWindow : Int := 5
  mergeSimilarity : Float := 0.75
  confidenceThreshold : Float := 0.6
  thresholdByKind : List (String × Float) := []
  stopConfidence : Float := 0.55

structure Settings where
  model : ModelSettings
  review : ReviewSettings

namespace ModelSettings

def readFields {α : Type} [Source α] (fs : List (String × α)) : Reading ModelSettings := run do
  let provider ← optional fs "provider" "deepseek" text
  let model ← optional fs "model" "deepseek-chat" text
  let apiKey ← optional fs "api_key" none (orNull text)
  let baseUrl ← optional fs "base_url" none (orNull text)
  let temperature ← optional fs "temperature" 0.7 real
  return { provider, model, apiKey, baseUrl, temperature }

def toJson (m : ModelSettings) : Json :=
  .object [("provider", m.provider), ("model", m.model), ("api_key", ofText? m.apiKey), ("base_url", ofText? m.baseUrl),
    ("temperature", m.temperature)]

def ofFields (fs : Json.Object) : Result ModelSettings := toExcept "LLMConfig" (readFields fs)

end ModelSettings

namespace ReviewSettings

def readPath {α : Type} [Source α] (v : α) : Reading Path := (path v).map ofString

/-- Reads the settings of a review; `home` is the root unless one is given. -/
def readFields {α : Type} [Source α] (home : Path) (fs : List (String × α)) : Reading ReviewSettings :=
  run do
    let root ← optional fs "workspace_root" home readPath
    let assets ← optional fs "assets_dir" (ofString "assets_cache") readPath
    let timeout ← optional fs "timeout_seconds" 600 whole
    let assetKey ← optional fs "asset_key" none (orNull text)
    let maxRequests ← optional fs "max_concurrent_llm_requests" 5 (wholeFrom 1)
    let maxRounds ← optional fs "max_expert_rounds" 20 (wholeFrom 1)
    let fs' := match get? fs "max_expert_tool_calls", get? fs "max_expert_tool_call" with
      | none, some v => insert fs "max_expert_tool_calls" v
      | _, _ => fs
    let maxToolCalls ← optional fs' "max_expert_tool_calls" 6 (wholeFrom 0)
    let filterPaths ← optional fs "path_filter_enabled" true truth
    let globs := listOf text
    let includeGlobs ← optional fs "path_filter_include_globs" [] globs
    let excludeGlobs ← optional fs "path_filter_exclude_globs" [] globs
    let anchorWindow ← optional fs "manager_anchor_window" 5 (wholeFrom 0)
    let dropUnanchored ← optional fs "manager_drop_unanchored" true truth
    let share := realBetween 0.0 1.0
    let unanchoredConfidence ← optional fs "manager_unanchored_confidence" 0.2 share
    let maxItems ← optional fs "manager_max_work_items_total" 30 (wholeFrom 1)
    let maxItemsPerFile ← optional fs "manager_max_items_per_file" 6 (wholeFrom 1)
    let maxItemsPerKind ←
      optional fs "manager_max_items_per_risk_type" [] (tableOf whole)
    let weights := tableOf real
    let kindWeights ← optional fs "manager_risk_type_weights" [] weights
    let severityWeights ← optional fs "manager_severity_weights" [] weights
    let mergeWindow ← optional fs "manager_merge_line_window" 5 (wholeFrom 0)
    let mergeSimilarity ← optional fs "manager_merge_jaccard" 0.75 share
    let confidenceThreshold ← optional fs "confidence_threshold" 0.6 share
    let thresholdByKind ← optional fs "confidence_threshold_by_risk_type" [] weights
    let stopConfidence ← optional fs "expert_confidence_clamp_on_budget_stop" 0.55 share
    return { root, assets, timeout, assetKey, maxRequests, maxRounds, maxToolCalls, filterPaths,
             includeGlobs, excludeGlobs, anchorWindow, dropUnanchored, unanchoredConfidence,
             maxItems, maxItemsPerFile, maxItemsPerKind, kindWeights, severityWeights, mergeWindow,
             mergeSimilarity, confidenceThreshold, thresholdByKind, stopConfidence }

def toJson (s : ReviewSettings) : Json :=
  let reals (t : List (String × Float)) : Json := .object (t.map fun (k, x) => (k, x))
  .object [("workspace_root", s.root.toString), ("assets_dir", s.assets.toString), ("timeout_seconds", s.timeout),
    ("asset_key", ofText? s.assetKey),
    ("max_concurrent_llm_requests", s.maxRequests),
    ("max_expert_rounds", s.maxRounds),
    ("max_expert_tool_calls", s.maxToolCalls),
    ("path_filter_enabled", s.filterPaths),
    ("path_filter_include_globs", texts s.includeGlobs),
    ("path_filter_exclude_globs", texts s.excludeGlobs),
    ("manager_anchor_window", s.anchorWindow),
    ("manager_drop_unanchored", s.dropUnanchored),
    ("manager_unanchored_confidence", s.unanchoredConfidence),
    ("manager_max_work_items_total", s.maxItems),
    ("manager_max_items_per_file", s.maxItemsPerFile),
    ("manager_max_items_per_risk_type", .object (s.maxItemsPerKind.map fun (k, n) => (k, n))),
    ("manager_risk_type_weights", reals s.kindWeights),
    ("manager_severity_weights", reals s.severityWeights),
    ("manager_merge_line_window", s.mergeWindow),
    ("manager_merge_jaccard", s.mergeSimilarity),
    ("confidence_threshold", s.confidenceThreshold),
    ("confidence_threshold_by_risk_type", reals s.thresholdByKind),
    ("expert_confidence_clamp_on_budget_stop", s.stopConfidence)]

end ReviewSettings

namespace Settings

variable (env : Pairs) (name : String) (home : Path)

def standard : Settings := ⟨{}, { root := home }⟩

def readFields {α : Type} [Source α] (home : Path) (fs : List (String × α)) : Reading Settings :=
  run do
    let model ← optional fs "llm" {} (nested ModelSettings.readFields)
    let review ← optional fs "system" { root := home } (nested (ReviewSettings.readFields home))
    return ⟨model, review⟩

def recordName := "Config"

def ofFields (fs : Json.Object) : Result Settings := toExcept recordName (readFields home fs)

def toJson (s : Settings) : Json := .object [("llm", s.model.toJson), ("system", s.review.toJson)]

def given : Option String := (get? env name).filter (· != "")

def givenInt (fallback : Int) : Int := ((given env name).bind readInt?).getD fallback

/-- The key of the model: the general variable first, then that of the provider in use. -/
def apiKeyFrom (provider : String) (fallback : Option String) : Option String :=
  match given env "LLM_API_KEY" with
  | some k => some k
  | none =>
    match given env "DEEPSEEK_API_KEY", given env "ZHIPUAI_API_KEY" with
    | some d, z => if provider == "deepseek" then some d
      else if provider == "zhipuai" then z <|> fallback else fallback
    | none, some z => if provider == "zhipuai" then some z else fallback
    | none, none => fallback

/-- Settings with the environment's overrides. What the environment gives is not held to the bounds. -/
def withEnvironment (s : Settings) (env : Pairs) : Settings :=
  let m := s.model
  let provider := (given env "LLM_PROVIDER").getD m.provider
  let temperature := match given env "LLM_TEMPERATURE" with
    | some t => (readReal? t).getD m.temperature
    | none => m.temperature
  let r := s.review
  let maxToolCalls := match given env "MAX_EXPERT_TOOL_CALLS" with
    | some t => (readInt? t).getD r.maxToolCalls
    | none => givenInt env "MAX_EXPERT_TOOL_CALL" r.maxToolCalls
  { model := { m with
      provider
      model := (given env "LLM_MODEL").getD m.model
      baseUrl := (given env "LLM_BASE_URL") <|> m.baseUrl
      apiKey := apiKeyFrom env provider m.apiKey
      temperature }
    review := { r with
      root := ((given env "WORKSPACE_ROOT").map ofString).getD r.root
      assets := ((given env "ASSETS_DIR").map ofString).getD r.assets
      timeout := givenInt env "TIMEOUT_SECONDS" r.timeout
      maxRequests := givenInt env "MAX_CONCURRENT_LLM_REQUESTS" r.maxRequests
      maxRounds := givenInt env "MAX_EXPERT_ROUNDS" r.maxRounds
      maxToolCalls } }

end Settings

end PatchReview
