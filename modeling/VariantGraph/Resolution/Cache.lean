import VariantGraph.Variant

/-!
# What has been fetched

A resolution remembers the module data and the version listings that it fetched, and also which
module versions do not exist, so that nothing is asked for twice.

Main statements: `Cache.module?_insertModule` and `Cache.listing?_insertListing`.
-/

namespace VariantGraph.Resolution

/-- Fetched module data and version listings. -/
structure Cache where
  modules : Table Coordinates (Option ModuleData) := Table.empty
  listings : Table ModuleId (List String) := Table.empty
deriving DecidableEq

namespace Cache

/-- What was fetched for a module version: nothing yet, that it does not exist, or its data. -/
def module? (c : Cache) (id : Coordinates) : Option (Option ModuleData) := c.modules.get? id

/-- Whether a module version was fetched. -/
def isFetched (c : Cache) (id : Coordinates) : Bool := c.modules.contains id

/-- Remembers what was fetched for a module version. -/
def insertModule (c : Cache) (id : Coordinates) (data : Option ModuleData) : Cache :=
  { c with modules := c.modules.insert id data }

/-- The known versions of a module, if they were fetched. -/
def listing? (c : Cache) (m : ModuleId) : Option (List String) := c.listings.get? m

/-- Remembers the versions of a module. -/
def insertListing (c : Cache) (m : ModuleId) (versions : List String) : Cache :=
  { c with listings := c.listings.insert m versions }

/-- The number of module versions that were fetched. -/
def size (c : Cache) : Nat := c.modules.size

/-- Whether no module version was fetched. -/
def isEmpty (c : Cache) : Bool := c.modules.isEmpty

theorem module?_insertModule (c : Cache) (id id' : Coordinates) (data : Option ModuleData) :
    (c.insertModule id data).module? id' = if id' = id then some data else c.module? id' :=
  Table.get?_insert _ _ _ _

theorem listing?_insertListing (c : Cache) (m m' : ModuleId) (versions : List String) :
    (c.insertListing m versions).listing? m' = if m' = m then some versions else c.listing? m' :=
  Table.get?_insert _ _ _ _

end Cache

end VariantGraph.Resolution
