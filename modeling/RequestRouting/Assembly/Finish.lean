import RequestRouting.Assembly.Resolve

/-!
# Finishing an application

Once all nodes are resolved, the template and the manual resource are built from their first
configuration. The documents of all dispatchers that were referenced pass through the manual
resource, and that's where dispatches are captured to, so there must be one if there are any.
-/

namespace RequestRouting

/-- The URI at which the manual resource is mounted internally. -/
def ManualNode.mount (node : ManualNode) : String := clean (node.internalUri.getD "/_manual/")

/-- The configuration with a library document that passes through. -/
def ManualNode.addPassThrough (node : ManualNode) (name : String) : ManualNode :=
  let names := node.passThroughs.getD []
  { node with passThroughs := some (if names.contains name then names else names ++ [name]) }

/-- The configuration with the documents of dispatch targets that pass through. -/
def ManualNode.withTargets (node : ManualNode) (targets : List DispatchTarget) : ManualNode :=
  targets.foldl (fun node target => node.addPassThrough (Text.trim (· = '/') target.dispatcher)) node

namespace Assembly

/-- The root directory of documents, which must be a directory if it exists. -/
def documentRoot (root : Option String) : Assembly String := do
  let s ← get
  let path := s.context.path (root.getD "resources")
  if s.world.files.exists? path && !s.world.files.isFolder path then
    throw (.file (.invalidInput ("not a directory: " ++ path)))
  else return path

/-- A token, unless it's empty. -/
def token? (token : String) : Option String := if token.isEmpty then none else some token

/-- Builds the manual resource. -/
def buildManual (node : ManualNode) : Assembly Handler := do
  let root ← documentRoot node.root
  let c ← context
  let place ← add (·.addLookups)
  let code := c.settings.code
  let documents : Documents :=
    { source :=
        { place
          source :=
            { root
              token := token? (node.preExtension.getD "m")
              defaultName := node.defaultDocumentName.getD code.defaultDocumentName
              defaultExtension := node.defaultExtension.getD code.defaultExtension
              validity := c.validity } }
      passThroughs := node.passThroughs.getD []
      libraries := c.libraries
      purpose := .manual
      libraryPaths := c.libraryPaths
      language := code.defaultLanguageTag
      registry := c.registry
      trailingSlash := node.trailingSlashRequired.getD true
      caching := node.clientCachingMode.getD .conditional
      maxAge := node.maxClientCachingDuration.getD MaxAge.unset }
  compressed (node.compress.getD true) (.documents documents)

/-- Builds the template resource. -/
def buildTemplates (node : TemplatesNode) : Assembly Handler := do
  let root ← documentRoot node.root
  let c ← context
  let place ← add (·.addLookups)
  let documents : Documents :=
    { source :=
        { place
          source :=
            { root
              token := token? (node.preExtension.getD "t")
              defaultName := node.defaultDocumentName.getD "index"
              defaultExtension := node.defaultExtension.getD "html"
              validity := c.validity } }
      passThroughs := node.passThroughs.getD []
      libraries := c.libraries
      purpose := .template
      libraryPaths := c.libraryPaths
      includes := (node.includeRoots.getD ["libraries/includes"]).map c.path
      language := c.settings.code.defaultLanguageTag
      registry := c.registry
      caching := node.clientCachingMode.getD .conditional
      maxAge := node.maxClientCachingDuration.getD MaxAge.unset }
  compressed (node.compress.getD true) (.documents documents)

/-- Binds the URIs of dispatch targets, and makes them known to dispatches. -/
def publishTargets (internal : String) : Assembly Unit := do
  let c ← context
  let table := c.dispatch.bind internal
  modify fun s => { context := { c with dispatch := table }, world := { s.world with
    tables := s.world.tables.setIfInBounds c.table table } }

/-- Builds the resources, yielding the URI the manual resource is mounted at and the slot that stands
for it, if it's used. -/
def finish : Assembly (Option (String × Nat)) := do
  let c ← context
  if let some templates := c.templates then
    bind templates.slot (← buildTemplates templates.config)
  match c.manual with
  | none =>
    if c.dispatch.referenced.isEmpty then return none
    else throw (.manualRequired c.name)
  | some manual =>
    let internal := manual.config.mount
    publishTargets internal
    bind manual.slot (← buildManual (manual.config.withTargets c.dispatch.referenced))
    return some (internal, manual.slot)

end Assembly

end RequestRouting
