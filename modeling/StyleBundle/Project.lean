import StyleBundle.Path

/-!
# Projects

What the stylesheets of one bundling pass have in common: where the sources, the application and
the installed packages are, whether and where compiled text is cached, which overrides remap
imports, and which extensions are taken as sources.
-/

namespace StyleBundle

/-- What the stylesheets of one bundling pass have in common. Its paths are tidy. -/
structure Project where
  /-- The directory of the sources. -/
  home : String
  /-- The directory of the application. -/
  appRoot : String
  /-- The directory of the installed packages. -/
  packages : String
  /-- Whether the cache is consulted and written. -/
  usesCache : Bool
  /-- The directory of the cache. -/
  cache : Option String
  /-- The overrides of imported paths, each with a dot in front. -/
  overrides : Option (List String)
  /-- The extensions that are taken as sources. -/
  extensions : List String

namespace Project

/-- A project with its sources in one place. The application is there too unless it is said to be
elsewhere, and the packages are in the application's `node_modules`. -/
def rooted (home : String) (appRoot packages : Option String) : Project :=
  let home := Path.tidy home
  let appRoot := (appRoot.map Path.tidy).getD home
  { home
    appRoot
    packages := (packages.map Path.tidy).getD (Path.child appRoot "node_modules")
    usesCache := false
    cache := none
    overrides := none
    extensions := [] }

/-- The project with an extension taken as source, once. -/
def allow (p : Project) (extension : String) : Project :=
  if extension ∈ p.extensions then p else { p with extensions := p.extensions ++ [extension] }

end Project

end StyleBundle
