import TypedContent.Text.Basic
import TypedContent.TypeScript.Lexical

/-!
# The transport of a client

The declarations at the top of every client module: its configuration, the
error class, query strings, and the class that sends requests. Only the path
in front of every request varies; the rest is written down as text.
-/

namespace TypedContent

namespace Transport

/-- How a client reaches the server. -/
def configType : List String :=
  ["export interface ClientConfig \x7b",
    "  baseURL: string;",
    "  token?: string;",
    "  apiPrefix?: string;",
    "  fetch?: typeof fetch;",
    "  headers?: Record<string, string>;",
    "\x7d"]

/-- An answer with a status that is no success. -/
def errorClass : List String :=
  ["export class ApiError extends Error \x7b",
    "  status: number;",
    "  statusText: string;",
    "  body: unknown;",
    "",
    "  constructor(status: number, statusText: string, body: unknown) \x7b",
    "    super(`HTTP $\x7bstatus\x7d: $\x7bstatusText\x7d`);",
    "    this.name = \"ApiError\";",
    "    this.status = status;",
    "    this.statusText = statusText;",
    "    this.body = body;",
    "  \x7d",
    "\x7d"]

/-- Nested query parameters in bracket form. -/
def serializeFunction : List String :=
  ["function serializeQuery(value: unknown, prefix: string, out: string[]): string[] \x7b",
    "  if (value === undefined || value === null) \x7b",
    "    return out;",
    "  \x7d",
    "  if (Array.isArray(value)) \x7b",
    "    value.forEach((item, index) => serializeQuery(item, `$\x7bprefix\x7d[$\x7bindex\x7d]`, out));",
    "  \x7d else if (typeof value === \"object\") \x7b",
    "    for (const [key, inner] of Object.entries(value as Record<string, unknown>)) \x7b",
    "      serializeQuery(inner, prefix ? `$\x7bprefix\x7d[$\x7bkey\x7d]` : key, out);",
    "    \x7d",
    "  \x7d else \x7b",
    "    out.push(`$\x7bencodeURIComponent(prefix)\x7d=$\x7bencodeURIComponent(String(value))\x7d`);",
    "  \x7d",
    "  return out;",
    "\x7d"]

/-- The query string of a request. -/
def queryFunction : List String :=
  ["export function buildQuery(params?: object): string \x7b",
    "  if (!params) \x7b",
    "    return \"\";",
    "  \x7d",
    "  const query = \x7b ...(params as Record<string, unknown>) \x7d;",
    "  if (query.populate === true) \x7b",
    "    query.populate = \"*\";",
    "  \x7d",
    "  const parts = serializeQuery(query, \"\", []);",
    "  return parts.length > 0 ? `?$\x7bparts.join(\"&\")\x7d` : \"\";",
    "\x7d"]

/-- What all classes of a client share: sending a request. -/
def baseClass : List String :=
  ["export abstract class BaseAPI \x7b",
    "  protected readonly config: ClientConfig;",
    "  protected readonly endpoint: string;",
    "",
    "  constructor(config: ClientConfig, endpoint: string) \x7b",
    "    this.config = config;",
    "    this.endpoint = endpoint;",
    "  \x7d",
    "",
    "  protected async request<T>(",
    "    method: string,",
    "    path: string,",
    "    options: \x7b query?: object; body?: unknown \x7d = \x7b\x7d,",
    "  ): Promise<T> \x7b",
    "    const prefix = this.config.apiPrefix ?? DEFAULT_API_PREFIX;",
    "    const url = `$\x7bthis.config.baseURL.replace(/\\/$/, \"\")\x7d$\x7bprefix\x7d$\x7bpath\x7d$\x7bbuildQuery(options.query)\x7d`;",
    "    const headers: Record<string, string> = \x7b",
    "      \"Content-Type\": \"application/json\",",
    "      ...this.config.headers,",
    "    \x7d;",
    "    if (this.config.token) \x7b",
    "      headers.Authorization = `Bearer $\x7bthis.config.token\x7d`;",
    "    \x7d",
    "    const fetchImpl = this.config.fetch ?? fetch;",
    "    const response = await fetchImpl(url, \x7b",
    "      method,",
    "      headers,",
    "      body: options.body === undefined ? undefined : JSON.stringify(options.body),",
    "    \x7d);",
    "    const text = await response.text();",
    "    const payload = text ? JSON.parse(text) : null;",
    "    if (!response.ok) \x7b",
    "      throw new ApiError(response.status, response.statusText, payload);",
    "    \x7d",
    "    return payload as T;",
    "  \x7d",
    "\x7d"]

/-- The text of the transport for a default path in front of every
request. -/
def text (apiPrefix : String) : String :=
  Text.unlines (("const DEFAULT_API_PREFIX = " ++ TypeScript.quoted apiPrefix ++ ";")
    :: "" :: configType ++ "" :: errorClass ++ "" :: serializeFunction
      ++ "" :: queryFunction
    ++ "" :: baseClass)

end Transport

end TypedContent
