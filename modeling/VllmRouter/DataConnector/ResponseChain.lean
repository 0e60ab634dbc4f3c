import VllmRouter.DataConnector.ResponseStore

/-!
# Response chains (`get_response_chain`)

A chain is read in two sections. The first follows the links from the requested
response and keeps the ids; the second reads the responses with these ids, oldest
first. Other calls may run in between.
-/

namespace VllmRouter.DataConnector.InnerStore

open List

end VllmRouter.DataConnector.InnerStore
